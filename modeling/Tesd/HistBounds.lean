import Tesd.Hist
import Tesd.Lib.Runs

/-!
# The histogram buffer

What `task_hist_pkt_hn` can do with a frame, and when its copies stay within the buffer.  A header
declares how many bytes are to come; nothing checks that the buffer has room for them, and what
another header without bins has left in the buffer is not dropped.
-/

namespace Tesd

open Slice

namespace HistData

variable {hist hist' : HistData} {pkt : Tespkt} {prev : ℕ}

/-- The bytes in the buffer that a new header does not drop. -/
def carry (hist : HistData) : ℕ := if hist.curNbins > 0 ∨ hist.discard = true then 0 else hist.curSize

/-! ## What a frame does -/

theorem startHist_eq (pkt : Tespkt) (hist : HistData) : ∃ dbg, hist.startHist pkt =
    ⟨pkt.mcaNbinsTot, 0, pkt.mcaSize, hist.carry, false, hist.buf, hist.sock, dbg⟩ := by
  unfold startHist carry
  by_cases hbins : hist.curNbins > 0
  · simp [hbins, clear, dbgAssert]
  · cases hdis : hist.discard with
    | true => simp [hbins, hdis, clear, dbgAssert]
    | false =>
      have hzero : hist.curNbins = 0 := by omega
      simp [hdis, hzero, dbgAssert]

theorem countBins_eq (pkt : Tespkt) (hist : HistData) : hist.countBins pkt =
    if (hist.curNbins + pkt.mcaNbins) % 2 ^ 16 > hist.nbins then
      (false, { hist with
        curNbins := (hist.curNbins + pkt.mcaNbins) % 2 ^ 16
        discard := true
        dbg := hist.dbg && !hist.discard })
    else
      (true, { hist with
        curNbins := (hist.curNbins + pkt.mcaNbins) % 2 ^ 16
        dbg := hist.dbg && !hist.discard }) :=
  rfl

/-- The data once the bins of a frame are counted that was not too long. -/
theorem countBins_true (h : hist.countBins pkt = (true, hist')) : ∃ dbg,
    hist' = { hist with curNbins := (hist.curNbins + pkt.mcaNbins) % 2 ^ 16, dbg := dbg } ∧
      (hist.curNbins + pkt.mcaNbins) % 2 ^ 16 ≤ hist.nbins := by
  rw [countBins_eq] at h
  split_ifs at h with hextra
  · cases h
  · cases h
    exact ⟨_, rfl, Nat.le_of_not_lt hextra⟩

theorem countBins_false (h : hist.countBins pkt = (false, hist')) :
    hist'.discard = true ∧ hist'.sock = hist.sock := by
  rw [countBins_eq] at h
  split_ifs at h
  · cases h
    exact ⟨rfl, rfl⟩
  · cases h

/-- A header frame that is copied starts a new histogram. -/
theorem accept_header (hdr : pkt.isHeader = true) (h : hist.accept prev pkt = (true, hist')) :
    ∃ dbg, hist' = ⟨pkt.mcaNbinsTot, pkt.mcaNbins % 2 ^ 16, pkt.mcaSize, hist.carry, false,
      hist.buf, hist.sock, dbg⟩ ∧ pkt.mcaNbins % 2 ^ 16 ≤ pkt.mcaNbinsTot := by
  rw [accept, if_neg (by simp [hdr])] at h
  obtain ⟨dbg, hstart⟩ := startHist_eq pkt hist
  rw [hstart] at h
  obtain ⟨dbg', rfl, hle⟩ := countBins_true h
  rw [Nat.zero_add] at hle ⊢
  exact ⟨dbg', rfl, hle⟩

/-- Another frame that is copied goes on with the histogram under way. -/
theorem accept_rest (hdr : pkt.isHeader = false) (h : hist.accept prev pkt = (true, hist')) :
    hist.discard = false ∧ ((pkt.pseq : ℤ) - prev) % 2 ^ 16 = 1 ∧
      ∃ dbg, hist' = { hist with
        curNbins := (hist.curNbins + pkt.mcaNbins) % 2 ^ 16, dbg := dbg } ∧
        (hist.curNbins + pkt.mcaNbins) % 2 ^ 16 ≤ hist.nbins := by
  rw [accept, if_pos (by simp [hdr])] at h
  split_ifs at h with hdis hseq
  · cases h
  · cases h
  · rw [ne_eq, not_not] at hseq
    exact ⟨by simpa using hdis, hseq, countBins_true h⟩

/-- A frame that is not copied leaves the histogram to be discarded. -/
theorem accept_false (h : hist.accept prev pkt = (false, hist')) :
    hist'.discard = true ∧ hist'.sock = hist.sock := by
  unfold accept at h
  split_ifs at h with hdr hdis hseq
  · cases h
    exact ⟨hdis, rfl⟩
  · cases h
    exact ⟨rfl, rfl⟩
  · exact countBins_false h
  · obtain ⟨dbg, hstart⟩ := startHist_eq pkt hist
    obtain ⟨h₁, h₂⟩ := countBins_false h
    rw [hstart] at h₂
    exact ⟨h₁, h₂⟩

/-- The bytes so far, after a copy. -/
theorem append_spec (pkt : Tespkt) (flen : ℕ) (hist : HistData)
    (small : hist.curSize + (Slot.payload pkt flen).length < 2 ^ 32) :
    ∃ dbg, hist.append pkt flen = { hist with
      buf := write hist.buf hist.curSize (Slot.payload pkt flen)
      curSize := hist.curSize + (Slot.payload pkt flen).length, dbg := dbg } := by
  unfold append
  dsimp only [dbgAssert]
  rw [Nat.mod_eq_of_lt small]
  exact ⟨_, rfl⟩

/-- What becomes of the data after a copy: the histogram is complete and sent, or it is not
complete. -/
theorem publish_cases (hist : HistData) :
    (hist.curNbins = hist.nbins ∧ hist.publish.1 = .error) ∨
      (hist.curNbins = hist.nbins ∧ hist.publish.1 = .zero ∧ ∃ sends calls buf dbg,
        hist.publish.2 = ⟨0, 0, 0, 0, false, buf, ⟨sends, calls, hist.sock.published ++
          [slice hist.buf 0 hist.curSize]⟩, dbg⟩) ∨
      (hist.curNbins ≠ hist.nbins ∧ hist.publish.1 = .zero ∧ ∃ dbg,
        hist.publish.2 = { hist with dbg := dbg }) := by
  unfold publish PubSock.send
  dsimp only [dbgAssert]
  split_ifs with hall hsend
  · exact Or.inr (Or.inl ⟨hall, rfl, _, _, _, _, rfl⟩)
  · exact Or.inl ⟨hall, rfl⟩
  · exact Or.inr (Or.inr ⟨hall, rfl, _, rfl⟩)

end HistData

section Packet

variable {v v' : View HistData} {call : Call}

/-- What a frame does to the histogram task that does not end. -/
theorem histStep_cases (h : histStep (.packet call) v = some v') :
    ((call.slot.err ≠ 0 ∨ call.slot.pkt.isMca = false) ∧ v'.data = v.data) ∨
      (call.slot.err = 0 ∧ call.slot.pkt.isMca = true ∧ v'.data.discard = true ∧
        v'.data.sock = v.data.sock) ∨
      (call.slot.err = 0 ∧ call.slot.pkt.isMca = true ∧ ∃ hist,
        v.data.accept v.prevPseqMca call.slot.pkt = (true, hist) ∧
        (hist.append call.slot.pkt call.slot.flen).publish = (.zero, v'.data)) := by
  unfold histStep at h
  dsimp only at h
  split_ifs at h with hrc
  cases h
  have hpair : v.handle taskHistPktHn call = ((v.handle taskHistPktHn call).1,
    (v.packet taskHistPktHn call).2.data) := rfl
  have hrc' : (v.handle taskHistPktHn call).1 ≠ .error := hrc
  generalize (v.packet taskHistPktHn call).2.data = data at hpair ⊢
  generalize (v.handle taskHistPktHn call).1 = rc at hpair hrc'
  unfold View.handle taskHistPktHn at hpair
  split_ifs at hpair with herr hmca
  · cases hpair
    exact Or.inl ⟨Or.inl herr, rfl⟩
  · cases hpair
    exact Or.inl ⟨Or.inr (by simpa using hmca), rfl⟩
  · rw [ne_eq, not_not] at herr
    have hmca' : call.slot.pkt.isMca = true := by simpa using hmca
    cases haccept : v.data.accept v.prevPseqMca call.slot.pkt with
    | mk copied hist =>
      rw [haccept] at hpair
      cases copied with
      | false =>
        cases hpair
        exact Or.inr (Or.inl ⟨herr, hmca', HistData.accept_false haccept⟩)
      | true =>
        refine Or.inr (Or.inr ⟨herr, hmca', hist, rfl, ?_⟩)
        dsimp only at hpair
        rw [hpair]
        have hzero : rc = .zero := by
          rcases HistData.publish_cases (hist.append call.slot.pkt call.slot.flen) with
            ⟨-, hp⟩ | ⟨-, hp, -⟩ | ⟨-, hp, -⟩
          · rw [hpair] at hp
            exact absurd hp hrc'
          · rw [hpair] at hp
            exact hp
          · rw [hpair] at hp
            exact hp
        rw [hzero]

end Packet

/-! ## Copies in the buffer -/

/-- The copy that the packet handler makes for a frame: `cur_size` and `paylen`. -/
def copyOf (e : HistEvent) (v : View HistData) : Option (ℕ × ℕ) :=
  match e with
  | .activate => none
  | .packet call =>
    if call.slot.err ≠ 0 ∨ call.slot.pkt.isMca = false then none
    else
      match v.data.accept v.prevPseqMca call.slot.pkt with
      | (false, _) => none
      | (true, hist) => some (hist.curSize, (Slot.payload call.slot.pkt call.slot.flen).length)

/-- The copy, if there is one, ends within the buffer. -/
def InBuffer (e : HistEvent) (v : View HistData) : Prop :=
  ∀ p ∈ copyOf e v, p.1 + p.2 ≤ TES_HIST_MAXSIZE

/-- The histogram that a valid header frame declares has room in the buffer, after what is left
there. -/
def Fits (e : HistEvent) (v : View HistData) : Prop :=
  match e with
  | .activate => True
  | .packet call => call.slot.err = 0 → call.slot.pkt.isMca = true → call.slot.pkt.isHeader = true →
    v.data.carry + call.slot.pkt.mcaSize ≤ TES_HIST_MAXSIZE

namespace HistData

/-- A histogram under way, with `base` bytes before it in the buffer, has room in the buffer. -/
structure Room (base : ℕ) (hist : HistData) : Prop where
  counted : hist.curNbins ≤ hist.nbins
  received : hist.curSize = base + TESPKT_MCA_HDR_LEN + 4 * hist.curNbins
  room : base + TESPKT_MCA_HDR_LEN + 4 * hist.nbins ≤ TES_HIST_MAXSIZE

/-- Nothing has been received since the last histogram. -/
structure Idle (hist : HistData) : Prop where
  nbins : hist.nbins = 0
  curNbins : hist.curNbins = 0
  curSize : hist.curSize = 0

/-- Frames are discarded, or there is room for the histogram under way. -/
def Bounded (hist : HistData) : Prop :=
  hist.discard = false → hist.Idle ∨ ∃ base, hist.Room base

variable {hist : HistData}

end HistData

section Copy

variable {v v' : View HistData} {call : Call} {hist : HistData}

/-- A frame that is copied leaves room for the rest of its histogram, once it is copied. -/
theorem room_of_accept (bounded : v.data.Bounded) (fits : Fits (.packet call) v)
    (err : call.slot.err = 0) (mca : call.slot.pkt.isMca = true)
    (h : v.data.accept v.prevPseqMca call.slot.pkt = (true, hist)) :
    ∃ base, hist.curNbins ≤ hist.nbins ∧
      hist.curSize + (Slot.payload call.slot.pkt call.slot.flen).length =
        base + TESPKT_MCA_HDR_LEN + 4 * hist.curNbins ∧
      base + TESPKT_MCA_HDR_LEN + 4 * hist.nbins ≤ TES_HIST_MAXSIZE := by
  obtain ⟨valid, -⟩ := Slot.valid_of_err err
  have hlen := Slot.length_payload_of_err err
  generalize (Slot.payload call.slot.pkt call.slot.flen).length = paylen at hlen ⊢
  cases hdr : call.slot.pkt.isHeader with
  | true =>
    obtain ⟨dbg, rfl, hle⟩ := HistData.accept_header hdr h
    have hfits := fits err mca hdr
    unfold Tespkt.mcaSize TESPKT_MCA_BIN_LEN at hfits
    refine ⟨v.data.carry, hle, ?_, ?_⟩
    · dsimp only
      rcases Tespkt.mcaNbins_of_valid_header valid hdr with ⟨hbins, hsmall⟩ | ⟨-, hbig⟩
      · rw [Nat.mod_eq_of_lt (by omega)]
        omega
      · -- a header frame that is too short has more bins than the histogram
        rw [Nat.mod_eq_of_lt Tespkt.mcaNbins_lt] at hle
        unfold TES_HIST_MAXSIZE at hfits
        omega
    · dsimp only
      omega
  | false =>
    obtain ⟨hdis, -, dbg, rfl, hle⟩ := HistData.accept_rest hdr h
    obtain ⟨hbins, hpos, hsmall⟩ := Tespkt.mcaNbins_of_valid valid hdr
    rcases bounded hdis with idle | ⟨base, room⟩
    · -- without a header there are no bins to come
      rw [idle.nbins, idle.curNbins] at hle
      omega
    · have := room.counted
      have := room.received
      have := room.room
      unfold TES_HIST_MAXSIZE at this
      have hmod : (v.data.curNbins + call.slot.pkt.mcaNbins) % 2 ^ 16 =
          v.data.curNbins + call.slot.pkt.mcaNbins := Nat.mod_eq_of_lt (by omega)
      rw [hmod] at hle ⊢
      refine ⟨base, hle, ?_, room.room⟩
      dsimp only
      omega

theorem inBuffer_of_bounded (e : HistEvent) (v : View HistData) (bounded : v.data.Bounded)
    (fits : Fits e v) : InBuffer e v := by
  intro p hp
  cases e with
  | activate => cases hp
  | packet call =>
    rw [copyOf] at hp
    split_ifs at hp with hskip
    · cases hp
    · rw [not_or, ne_eq, not_not, Bool.not_eq_false] at hskip
      cases haccept : v.data.accept v.prevPseqMca call.slot.pkt with
      | mk copied hist =>
        rw [haccept] at hp
        cases copied with
        | false => cases hp
        | true =>
          obtain rfl := Option.mem_some_iff.1 hp
          obtain ⟨base, hle, hsum, hroom⟩ := room_of_accept bounded fits hskip.1 hskip.2 haccept
          dsimp only
          omega

theorem bounded_step (e : HistEvent) (v v' : View HistData) (bounded : v.data.Bounded)
    (fits : Fits e v) (h : histStep e v = some v') : v'.data.Bounded := by
  cases e with
  | activate =>
    cases h
    exact Bool.noConfusion
  | packet call =>
    rcases histStep_cases h with ⟨-, hsame⟩ | ⟨-, -, hdis, -⟩ | ⟨herr, hmca, hist, haccept, hpub⟩
    · rw [hsame]
      exact bounded
    · exact fun h => absurd (hdis.symm.trans h) (by decide)
    · obtain ⟨base, hle, hsum, hroom⟩ := room_of_accept bounded fits herr hmca haccept
      obtain ⟨dbg, happ⟩ := HistData.append_spec call.slot.pkt call.slot.flen hist (by
        unfold TES_HIST_MAXSIZE at hroom
        omega)
      rw [happ] at hpub
      intro _
      rcases HistData.publish_cases _ with ⟨-, herror⟩ | ⟨-, -, _, _, _, _, hdata⟩ | ⟨-, -, _, hdata⟩
      · rw [hpub] at herror
        cases herror
      · rw [hpub] at hdata
        dsimp only at hdata
        rw [hdata]
        exact Or.inl ⟨rfl, rfl, rfl⟩
      · rw [hpub] at hdata
        dsimp only at hdata
        rw [hdata]
        exact Or.inr ⟨base, hle, hsum, hroom⟩

end Copy

/-- If every histogram that is declared has room in the buffer, no copy goes past its end. -/
theorem copies_in_buffer (sends : ℕ → Bool) (v : View HistData) (start : v.data = taskHistInit sends)
    (evs : List HistEvent) (fits : Runs.Along histStep Fits evs v) :
    Runs.Along histStep InBuffer evs v := by
  refine Runs.along_of_along _ bounded_step inBuffer_of_bounded ?_ fits
  rw [start]
  exact Bool.noConfusion

/-- A histogram of four bins in two frames. -/
theorem copies_in_buffer_two : Runs.Along histStep InBuffer
    [.packet ⟨mcaFrame 72 0 3 1, 0⟩, .packet ⟨mcaFrame 32 1 0 2, 0⟩] histView := by
  apply copies_in_buffer (fun _ => true) histView rfl
  refine ⟨fun _ _ _ => by decide, fun _ _ => ⟨fun _ _ hdr => ?_, fun _ _ => trivial⟩⟩
  exact absurd hdr (by decide)

/-- A frame that goes on with a histogram and does not complete it. -/
theorem histStep_rest (v : View HistData) (call : Call) (err : call.slot.err = 0)
    (mca : call.slot.pkt.isMca = true) (hdr : call.slot.pkt.isHeader = false)
    (keep : v.data.discard = false)
    (next : ((call.slot.pkt.pseq : ℤ) - v.prevPseqMca) % 2 ^ 16 = 1)
    (more : v.data.curNbins + call.slot.pkt.mcaNbins < v.data.nbins) (small : v.data.nbins < 2 ^ 16) :
    ∃ v', histStep (.packet call) v = some v' ∧ v'.prevPseqMca = call.slot.pkt.pseq ∧
      v'.data.discard = false ∧ v'.data.nbins = v.data.nbins ∧
      v'.data.curNbins = v.data.curNbins + call.slot.pkt.mcaNbins ∧
      v'.data.curSize =
        (v.data.curSize + (Slot.payload call.slot.pkt call.slot.flen).length) % 2 ^ 32 := by
  have hmod : (v.data.curNbins + call.slot.pkt.mcaNbins) % 2 ^ 16 =
      v.data.curNbins + call.slot.pkt.mcaNbins := Nat.mod_eq_of_lt (by omega)
  have haccept : v.data.accept v.prevPseqMca call.slot.pkt = (true, { v.data with
      curNbins := v.data.curNbins + call.slot.pkt.mcaNbins
      dbg := v.data.dbg && !v.data.discard }) := by
    rw [HistData.accept, if_pos (by simp [hdr]), if_neg (by simp [keep]), if_neg (not_not.2 next),
      HistData.countBins_eq, hmod, if_neg (by omega)]
  have hhandle : v.handle taskHistPktHn call = (HistData.append call.slot.pkt call.slot.flen
      { v.data with
        curNbins := v.data.curNbins + call.slot.pkt.mcaNbins
        dbg := v.data.dbg && !v.data.discard }).publish := by
    rw [View.handle, taskHistPktHn, if_neg (by simp [err]), if_neg (by simp [mca]), haccept]
  rcases HistData.publish_cases (HistData.append call.slot.pkt call.slot.flen
      { v.data with
        curNbins := v.data.curNbins + call.slot.pkt.mcaNbins
        dbg := v.data.dbg && !v.data.discard }) with ⟨hall, -⟩ | ⟨hall, -⟩ | ⟨-, hzero, dbg, hdata⟩
  · exact absurd hall (Nat.ne_of_lt more)
  · exact absurd hall (Nat.ne_of_lt more)
  · refine ⟨(v.packet taskHistPktHn call).2, ?_, ?_, ?_⟩
    · rw [histStep, if_neg]
      rw [View.packet, hhandle, hzero]
      decide
    · rw [View.packet, View.seen, if_pos mca]
    · rw [View.packet, View.seen, hhandle, hdata]
      exact ⟨keep, rfl, rfl, rfl⟩

/-- The `i`-th frame of a histogram of 65001 bins, after its header; all are as long as can be. -/
def largeRest (i : ℕ) : Slot := mcaFrame 1496 (i + 1) 0 0

def largeHeader : HistEvent := .packet ⟨mcaFrame 1496 0 65000 0, 0⟩

theorem largeRest_spec : ∀ i < 44, (largeRest i).err = 0 ∧ (largeRest i).pkt.isValid = 0 ∧
    (largeRest i).pkt.isMca = true ∧ (largeRest i).pkt.isHeader = false ∧
    (largeRest i).pkt.pseq = i + 1 ∧ (largeRest i).pkt.mcaNbins = 368 ∧
    (largeRest i).flen = 1496 := by
  decide +kernel

/-- The histogram after its header and `n` more frames. -/
theorem run_largeHist (n : ℕ) (hn : n ≤ 43) : ∃ v,
    Runs.run histStep (largeHeader :: (List.range n).map fun i => .packet ⟨largeRest i, 0⟩)
      histView = some v ∧
    v.prevPseqMca = n ∧ v.data.discard = false ∧ v.data.nbins = 65001 ∧
      v.data.curNbins = 358 + 368 * n ∧ v.data.curSize = 1472 * (n + 1) := by
  induction n with
  | zero =>
    obtain ⟨v, hrun, hv⟩ : ∃ v, Runs.run histStep [largeHeader] histView = some v ∧
        (v.prevPseqMca, v.data.discard, v.data.nbins, v.data.curNbins, v.data.curSize) =
          (0, false, 65001, 358, 1472) := by
      apply Option.map_eq_some_iff.1
      decide +kernel
    simp only [Prod.mk.injEq] at hv
    exact ⟨v, hrun, hv⟩
  | succ n ih =>
    obtain ⟨v, hrun, hprev, hdis, hnbins, hcur, hsize⟩ := ih (by omega)
    obtain ⟨herr, -, hmca, hhdr, hpseq, hbins, hflen⟩ := largeRest_spec n (by omega)
    obtain ⟨v', hstep, hprev', hdis', hnbins', hcur', hsize'⟩ :=
      histStep_rest v ⟨largeRest n, 0⟩ herr hmca hhdr hdis
        (by dsimp only; omega) (by dsimp only; omega) (by omega)
    refine ⟨v', ?_, ?_⟩
    · rw [List.range_succ, List.map_append, ← List.cons_append, Runs.run_append, hrun]
      exact (Option.bind_some _ _).trans (by rw [List.map_singleton, Runs.run, hstep]; rfl)
    · dsimp only at hprev' hcur' hsize'
      rw [Slot.payload, length_slice, hflen] at hsize'
      refine ⟨by omega, hdis', by omega, by omega, ?_⟩
      rw [hsize', hsize]
      unfold TESPKT_HDR_LEN
      omega

/-- Valid frames of a histogram that is too large are copied past the end of the buffer. -/
theorem not_copies_in_buffer :
    ¬ ∀ evs : List HistEvent, (∀ call, .packet call ∈ evs → call.slot.pkt.isValid = 0) →
      Runs.Along histStep InBuffer evs histView := by
  intro h
  obtain ⟨v, hrun, hprev, hdis, hnbins, hcur, hsize⟩ := run_largeHist 43 (Nat.le_refl 43)
  obtain ⟨herr, -, hmca, hhdr, hpseq, hbins, hflen⟩ := largeRest_spec 43 (by decide)
  have hvalid : ∀ call, .packet call ∈ (largeHeader :: (List.range 43).map fun i =>
      .packet ⟨largeRest i, 0⟩) ++ [.packet ⟨largeRest 43, 0⟩] → call.slot.pkt.isValid = 0 := by
    intro call hcall
    rcases List.mem_append.1 hcall with hcall | hcall
    · rcases List.mem_cons.1 hcall with hcall | hcall
      · cases hcall
        decide
      · obtain ⟨i, hi, hcall⟩ := List.mem_map.1 hcall
        cases hcall
        exact (largeRest_spec i (by have := List.mem_range.1 hi; omega)).2.1
    · cases List.mem_singleton.1 hcall
      exact (largeRest_spec 43 (by decide)).2.1
  have hlast := (Runs.along_of_append (h _ hvalid) hrun).1 (64768, 1472) (by
    rw [copyOf, if_neg (by simp [herr, hmca]), HistData.accept, if_pos (by simp [hhdr]),
      if_neg (by simp [hdis]), if_neg (by rw [hpseq, hprev]; decide), HistData.countBins_eq,
      if_neg (by rw [hbins, hcur, hnbins]; decide), hsize, Slot.payload, length_slice, hflen]
    rfl)
  exact absurd hlast (by decide)

end Tesd
