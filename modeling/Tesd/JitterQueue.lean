import Tesd.JitterTicks
import Tesd.Lib.DelayQueue

/-!
# The points of the jitter task as a queue

The points that wait for the next reference event, and the last one of `points`, which has the delay
since the last reference event and becomes the next point, are a queue of delays.  An event of the
reference channel counts the points, any other event is a step of the queue, and a histogram that is
published leaves only the last point.
-/

namespace Tesd

open DelayQueue (Event Queue Point)

/-- The points there can be besides the last one. -/
def OPEN_POINTS : ℕ := MAX_SIMULT_POINTS - 2

/-- The channel of an event that is not a tick. -/
def eventLabel (pkt : Tespkt) (e : ℕ) : Option ℕ := if pkt.isTick then none else some (pkt.evtFlCH e)

/-- Event `e` of a frame. -/
def eventOf (pkt : Tespkt) (e : ℕ) : Event ℕ := ⟨eventLabel pkt e, pkt.eventToff e⟩

/-- The histogram of a channel. -/
def hidOf (refCh ch : ℕ) : ℤ := if ch > refCh then ch - 1 else ch

/-- The bin of a point, by the smaller one of its delays. -/
def delayBin (since till : ℕ) : ℤ :=
  max 0 (min (BIN_OFFSET + if since ≤ till then (since : ℤ) else -till) (TES_JITTER_NBINS - 1))

/-- The histogram and the bin in which a point is counted. -/
def pointBin (refCh : ℕ) (p : Point ℕ) : ℤ × ℕ :=
  (hidOf refCh p.label, (delayBin p.since p.till).toNat)

namespace JitterHist

/-- The histograms after one more in a bin. -/
def count (hist : JitterHist) (at_ : ℤ × ℕ) : JitterHist :=
  { hist with
    hists := Function.update hist.hists at_.1
      { hist.hists at_.1 with
        bins := Function.update (hist.hists at_.1).bins at_.2
          (((hist.hists at_.1).bins at_.2 + 1) % 2 ^ 32) } }

/-- The histograms in which each of these bins has one more for each time that it is in the list,
and all others are the same. -/
def counted (hist : JitterHist) (bins : List (ℤ × ℕ)) : JitterHist :=
  { hist with
    hists := fun h =>
      { hist.hists h with
        bins := fun b =>
          if (h, b) ∈ bins then ((hist.hists h).bins b + bins.count (h, b)) % 2 ^ 32
          else (hist.hists h).bins b } }

theorem count_ch (hist : JitterHist) (b : ℤ × ℕ) (h : ℤ) :
    ((hist.count b).hists h).ch = (hist.hists h).ch := by
  unfold count
  dsimp only
  by_cases heq : h = b.1
  · rw [heq, Function.update_self]
  · rw [Function.update_of_ne heq]

theorem count_bins (hist : JitterHist) (b : ℤ × ℕ) (h : ℤ) (i : ℕ) :
    ((hist.count b).hists h).bins i =
      if (h, i) = b then ((hist.hists h).bins i + 1) % 2 ^ 32 else (hist.hists h).bins i := by
  unfold count
  dsimp only
  by_cases heq : h = b.1
  · subst heq
    rw [Function.update_self]
    dsimp only
    by_cases hi : i = b.2
    · subst hi
      rw [Function.update_self, if_pos rfl]
    · rw [Function.update_of_ne hi, if_neg fun hb => hi (congrArg Prod.snd hb)]
  · rw [Function.update_of_ne heq, if_neg fun hb => heq (congrArg Prod.fst hb)]

/-- Counting one point after the other. -/
theorem counted_cons (hist : JitterHist) (b : ℤ × ℕ) (bins : List (ℤ × ℕ)) :
    hist.counted (b :: bins) = (hist.count b).counted bins := by
  have hhists : (hist.counted (b :: bins)).hists = ((hist.count b).counted bins).hists := by
    funext h
    have hbins : ((hist.counted (b :: bins)).hists h).bins =
        (((hist.count b).counted bins).hists h).bins := by
      funext i
      unfold counted
      dsimp only
      rw [count_bins]
      by_cases hb : (h, i) = b
      · rw [if_pos hb, hb, if_pos List.mem_cons_self, List.count_cons_self]
        by_cases hmem : b ∈ bins
        · rw [if_pos hmem, Nat.mod_add_mod, Nat.add_assoc, Nat.add_comm 1]
        · rw [if_neg hmem, List.count_eq_zero_of_not_mem hmem]
      · rw [if_neg hb, List.count_cons_of_ne (Ne.symm hb)]
        simp only [List.mem_cons, hb, false_or]
    have hch := (count_ch hist b h).symm
    unfold counted at hbins ⊢
    dsimp only at hbins ⊢
    rw [hbins, hch]
  unfold counted at hhists ⊢
  unfold count at hhists ⊢
  dsimp only at hhists ⊢
  rw [hhists]

theorem counted_append (hist : JitterHist) (bins bins' : List (ℤ × ℕ)) :
    hist.counted (bins ++ bins') = (hist.counted bins).counted bins' := by
  induction bins generalizing hist with
  | nil => rfl
  | cons b bins ih => rw [List.cons_append, counted_cons, ih, ← counted_cons]

/-- A histogram without counts stays so only if nothing is counted in it. -/
theorem counted_empty {hist : JitterHist} {bins : List (ℤ × ℕ)} {h : ℤ}
    (empty : (hist.hists h).bins = fun _ => 0) (few : bins.length < 2 ^ 32) :
    (hist.counted bins).hists h = hist.hists h ↔ ∀ b, (h, b) ∉ bins := by
  constructor
  · intro heq b hmem
    have hbin := congrFun (congrArg SubHist.bins heq) b
    unfold counted at hbin
    dsimp only at hbin
    rw [if_pos hmem, empty, Nat.zero_add,
      Nat.mod_eq_of_lt (Nat.lt_of_le_of_lt List.count_le_length few)] at hbin
    exact List.count_eq_zero.1 hbin hmem
  · intro hnone
    unfold counted
    dsimp only
    rw [show (fun b => if (h, b) ∈ bins then
        ((hist.hists h).bins b + bins.count (h, b)) % 2 ^ 32 else (hist.hists h).bins b) =
        (hist.hists h).bins from funext fun b => if_neg (hnone b)]

end JitterHist

namespace JitterData

variable {d : JitterData} {q : Queue ℕ} {pkt : Tespkt} {e ch delay : ℕ}

/-- The points of the task are those of the queue, and the last one has the delay since the last
reference event. -/
structure Tracks (d : JitterData) (q : Queue ℕ) : Prop where
  npts : d.curNpts = q.opens.length + 1
  points : (List.range q.opens.length).map d.points =
    q.opens.map fun p => ⟨p.since, p.till, hidOf d.curConf.refCh p.label, p.label⟩
  since : (d.points q.opens.length).delaySince = q.since
  till : (d.points q.opens.length).delayUntil = 0
  hid : (d.points q.opens.length).hid = -1

theorem Tracks.npts_pos (h : Tracks d q) : 0 < d.curNpts := by
  rw [h.npts]
  exact Nat.succ_pos _

theorem tracks_dbgAssert (c : Bool) (h : Tracks d q) : Tracks (d.dbgAssert c) q :=
  ⟨h.npts, h.points, h.since, h.till, h.hid⟩

/-! ## The parts of an event -/

theorem map_range_congr {α : Type*} {f g : ℕ → α} {n : ℕ} (h : ∀ p < n, f p = g p) :
    (List.range n).map f = (List.range n).map g :=
  List.map_congr_left fun p hp => h p (List.mem_range.1 hp)

/-- The delay is added to all points but the last one. -/
theorem tracks_addToUntil (h : Tracks d q) :
    Tracks (d.addToUntil delay) ⟨DelayQueue.later UINT16_MAX delay q.opens, q.since⟩ := by
  have hlast : d.curNpts - 1 = q.opens.length := by
    rw [h.npts, Nat.add_sub_cancel]
  have hghost : (d.addToUntil delay).points q.opens.length = d.points q.opens.length := by
    unfold addToUntil
    dsimp only
    rw [hlast, if_neg (Nat.lt_irrefl _)]
  refine ⟨?_, ?_, ?_, ?_, ?_⟩
  · rw [DelayQueue.length_later]
    exact h.npts
  · rw [DelayQueue.length_later]
    calc (List.range q.opens.length).map (d.addToUntil delay).points
        = (List.range q.opens.length).map fun p =>
            { d.points p with delayUntil := min ((d.points p).delayUntil + delay) UINT16_MAX } := by
          apply map_range_congr
          intro p hp
          unfold addToUntil
          dsimp only
          rw [hlast, if_pos hp]
      _ = ((List.range q.opens.length).map d.points).map fun pt =>
            { pt with delayUntil := min (pt.delayUntil + delay) UINT16_MAX } := by
          rw [List.map_map]
          rfl
      _ = (DelayQueue.later UINT16_MAX delay q.opens).map fun p =>
            ⟨p.since, p.till, hidOf d.curConf.refCh p.label, p.label⟩ := by
          rw [h.points, DelayQueue.later, List.map_map, List.map_map]
          rfl
  · rw [DelayQueue.length_later, hghost]
    exact h.since
  · rw [DelayQueue.length_later, hghost]
    exact h.till
  · rw [DelayQueue.length_later, hghost]
    exact h.hid

/-- The delay is added to the last point. -/
theorem tracks_addToSince (h : Tracks d q) :
    Tracks (d.addToSince delay) ⟨q.opens, min (q.since + delay) UINT16_MAX⟩ := by
  have hlast : d.curNpts - 1 = q.opens.length := by
    rw [h.npts, Nat.add_sub_cancel]
  have hghost : (d.addToSince delay).points q.opens.length =
      { d.points q.opens.length with
        delaySince := min ((d.points q.opens.length).delaySince + delay) UINT16_MAX } := by
    unfold addToSince
    dsimp only
    rw [hlast, Function.update_self]
  refine ⟨h.npts, ?_, ?_, ?_, ?_⟩
  · refine Eq.trans ?_ h.points
    apply map_range_congr
    intro p hp
    unfold addToSince
    dsimp only
    rw [hlast, Function.update_of_ne (Nat.ne_of_lt hp)]
  · rw [hghost]
    dsimp only
    rw [h.since]
  · rw [hghost]
    exact h.till
  · rw [hghost]
    exact h.hid

theorem makeNew_points (room : d.curNpts < MAX_SIMULT_POINTS - 1) :
    (d.makeNew ch).curNpts = d.curNpts + 1 ∧
      (d.makeNew ch).points = Function.update (Function.update d.points (d.curNpts - 1)
          { d.points (d.curNpts - 1) with hid := hidOf d.curConf.refCh ch, ch := ch }) d.curNpts
        { d.points d.curNpts with
          delaySince := (d.points (d.curNpts - 1)).delaySince, delayUntil := 0, hid := -1 } := by
  unfold makeNew
  dsimp only
  rw [if_pos (show (d.dbgAssert (ch != d.curConf.refCh)).curNpts < MAX_SIMULT_POINTS - 1 from room)]
  exact ⟨rfl, rfl⟩

theorem makeNew_full (full : ¬ d.curNpts < MAX_SIMULT_POINTS - 1) :
    d.makeNew ch = d.dbgAssert (ch != d.curConf.refCh) := by
  unfold makeNew
  dsimp only
  exact if_neg full

theorem makeNew_hist (ch : ℕ) (d : JitterData) :
    (d.makeNew ch).hist = d.hist ∧ (d.makeNew ch).added = d.added := by
  unfold makeNew
  dsimp only
  split_ifs <;> exact ⟨rfl, rfl⟩

/-- A new point, if there is room for it. -/
theorem tracks_makeNew (h : Tracks d q) :
    Tracks (d.makeNew ch)
      (if q.opens.length < OPEN_POINTS then ⟨q.opens ++ [⟨q.since, 0, ch⟩], q.since⟩ else q) := by
  have hroom : d.curNpts < MAX_SIMULT_POINTS - 1 ↔ q.opens.length < OPEN_POINTS := by
    rw [h.npts]
    unfold OPEN_POINTS MAX_SIMULT_POINTS
    omega
  by_cases hfits : q.opens.length < OPEN_POINTS
  · obtain ⟨hnpts, hnew⟩ := @makeNew_points d ch (hroom.2 hfits)
    obtain ⟨⟨-, -, hcur, -⟩, -⟩ := makeNew_spec ch d
    rw [h.npts, Nat.add_sub_cancel] at hnew
    rw [if_pos hfits]
    have hlen : (q.opens ++ [(⟨q.since, 0, ch⟩ : Point ℕ)]).length = q.opens.length + 1 := by
      rw [List.length_append, List.length_singleton]
    refine ⟨?_, ?_, ?_, ?_, ?_⟩
    · rw [hnpts, h.npts, hlen]
    · rw [hlen, hcur, List.range_succ, List.map_append, List.map_append, List.map_singleton,
        List.map_singleton, ← h.points]
      congr 1
      · apply map_range_congr
        intro p hp
        rw [hnew, Function.update_of_ne (by omega), Function.update_of_ne (by omega)]
      · rw [hnew, Function.update_of_ne (by omega), Function.update_self]
        dsimp only
        rw [h.since, h.till]
    · rw [hlen, hnew, Function.update_self]
      exact h.since
    · rw [hlen, hnew, Function.update_self]
    · rw [hlen, hnew, Function.update_self]
  · rw [if_neg hfits, makeNew_full fun hlt => hfits (hroom.1 hlt)]
    exact tracks_dbgAssert _ h

/-- One turn of the loop that counts the points. -/
theorem savePoint_spec (d : JitterData) (p : ℕ) :
    (d.savePoint p).points = d.points ∧
      (d.savePoint p).hist = d.hist.count ((d.points p).hid,
        (delayBin (d.points p).delaySince (d.points p).delayUntil).toNat) ∧
      (d.savePoint p).added = d.added ++ [⟨(d.points p).hid,
        delayBin (d.points p).delaySince (d.points p).delayUntil,
        (d.hist.hists (d.points p).hid).ch, (d.points p).ch⟩] := by
  have hbin : ∀ s u : ℕ,
      (if (if s > u then -(u : ℤ) else s) + (BIN_OFFSET : ℤ) < 0 then (0 : ℤ)
        else if (if s > u then -(u : ℤ) else s) + (BIN_OFFSET : ℤ) ≥ TES_JITTER_NBINS
          then TES_JITTER_NBINS - 1 else (if s > u then -(u : ℤ) else s) + (BIN_OFFSET : ℤ)) =
        delayBin s u := by
    intro s u
    unfold delayBin TES_JITTER_NBINS BIN_OFFSET
    split_ifs <;> omega
  unfold savePoint
  dsimp only [dbgAssert]
  rw [hbin]
  exact ⟨rfl, rfl, rfl⟩

/-- The points are counted one after the other. -/
theorem savePoints_fold (ps : List ℕ) (d : JitterData) :
    (ps.foldl savePoint d).points = d.points ∧
      (ps.foldl savePoint d).hist = d.hist.counted (ps.map fun p => ((d.points p).hid,
        (delayBin (d.points p).delaySince (d.points p).delayUntil).toNat)) ∧
      (ps.foldl savePoint d).added = d.added ++ ps.map fun p => ⟨(d.points p).hid,
        delayBin (d.points p).delaySince (d.points p).delayUntil,
        (d.hist.hists (d.points p).hid).ch, (d.points p).ch⟩ := by
  induction ps generalizing d with
  | nil => exact ⟨rfl, rfl, (List.append_nil _).symm⟩
  | cons p ps ih =>
    obtain ⟨hpoints, hhist, hadded⟩ := savePoint_spec d p
    obtain ⟨ihpoints, ihhist, ihadded⟩ := ih (d.savePoint p)
    refine ⟨ihpoints.trans hpoints, ?_, ?_⟩
    · rw [List.foldl_cons, ihhist, hpoints, hhist, List.map_cons, JitterHist.counted_cons]
    · rw [List.foldl_cons, ihadded, hpoints, hadded, hhist, List.map_cons, List.append_assoc,
        List.singleton_append]
      simp only [JitterHist.count_ch]

/-- The delay since the reference event begins. -/
theorem tracks_savePoints (d : JitterData) : Tracks d.savePoints ⟨[], 0⟩ := by
  unfold savePoints
  refine ⟨rfl, rfl, ?_, ?_, ?_⟩ <;> dsimp only [List.length_nil] <;> rw [Function.update_self]

/-- The points are counted in their histograms. -/
theorem savePoints_spec (h : Tracks d q) :
    d.savePoints.hist = d.hist.counted (q.opens.map (pointBin d.curConf.refCh)) ∧
      d.savePoints.added = d.added ++ q.opens.map fun p =>
        ⟨hidOf d.curConf.refCh p.label, delayBin p.since p.till,
          (d.hist.hists (hidOf d.curConf.refCh p.label)).ch, p.label⟩ := by
  obtain ⟨hpoints, hhist, hadded⟩ := savePoints_fold (List.range q.opens.length) d
  have hn : d.curNpts - 1 = q.opens.length := by
    rw [h.npts, Nat.add_sub_cancel]
  constructor
  · unfold savePoints
    dsimp only
    rw [hn, hhist]
    congr 1
    have hmap := congrArg (List.map fun pt : JitterPoint =>
      (pt.hid, (delayBin pt.delaySince pt.delayUntil).toNat)) h.points
    rw [List.map_map, List.map_map] at hmap
    exact hmap
  · unfold savePoints
    dsimp only
    rw [hn, hadded]
    congr 1
    have hmap := congrArg (List.map fun pt : JitterPoint =>
      (⟨pt.hid, delayBin pt.delaySince pt.delayUntil, (d.hist.hists pt.hid).ch, pt.ch⟩ :
        AddedPoint)) h.points
    rw [List.map_map, List.map_map] at hmap
    exact hmap

/-- The first reference event: there are no points. -/
theorem savePoints_none (h : d.curNpts = 0) :
    d.savePoints.hist = d.hist ∧ d.savePoints.added = d.added := by
  have hn : List.range (d.curNpts - 1) = [] := by
    rw [h]
    rfl
  constructor
  · unfold savePoints
    rw [hn]
    rfl
  · unfold savePoints
    rw [hn]
    rfl

/-! ## One event -/

/-- An event of the reference channel is no tick. -/
theorem isRef_iff (refCh : ℕ) : (pkt.evtFlCH e == refCh && !pkt.isTick) = true ↔
    eventLabel pkt e = some refCh := by
  unfold eventLabel
  cases pkt.isTick <;> simp

/-- An event that is not of the reference channel, when points are under way. -/
theorem event_isOther (pos : 0 < d.curNpts) (other : eventLabel pkt e ≠ some d.curConf.refCh) :
    ∃ c c', d.event pkt e = (true,
      let d' := (((d.dbgAssert c).addToUntil (pkt.eventToff e)).addToSince
        (pkt.eventToff e)).dbgAssert c'
      match eventLabel pkt e with
      | none => d'
      | some ch => d'.makeNew ch) := by
  unfold event
  dsimp only
  generalize hd : d.dbgAssert _ = d₀
  have hcur : d₀.curConf = d.curConf := by
    rw [← hd]
    rfl
  have hzero : ¬ d₀.curNpts = 0 := by
    rw [← hd]
    exact Nat.ne_of_gt pos
  have href : (pkt.evtFlCH e == d₀.curConf.refCh && !pkt.isTick) = false := by
    rw [hcur, ← Bool.not_eq_true, isRef_iff]
    exact other
  rw [href]
  simp only [Bool.not_false, Bool.true_and, beq_iff_eq, if_true, Bool.false_eq_true, if_false,
    if_neg hzero]
  refine ⟨!(pkt.isTick || pkt.isTraceLong) || e == 0, decide (d₀.curNpts > 0), ?_⟩
  rw [hd]
  unfold eventLabel
  cases pkt.isTick <;> rfl

/-- It is a step of the queue. -/
theorem event_other (h : Tracks d q) (other : eventLabel pkt e ≠ some d.curConf.refCh) :
    Tracks (d.event pkt e).2 (DelayQueue.step OPEN_POINTS UINT16_MAX (eventOf pkt e) q) := by
  obtain ⟨c, c', heq⟩ := event_isOther h.npts_pos other
  rw [heq]
  have hadd := tracks_dbgAssert c' (@tracks_addToSince _ _ (pkt.eventToff e)
    (@tracks_addToUntil _ _ (pkt.eventToff e) (tracks_dbgAssert c h)))
  unfold DelayQueue.step eventOf
  dsimp only
  cases eventLabel pkt e with
  | none => exact hadd
  | some ch => exact tracks_makeNew hadd

theorem event_isRef (ref : eventLabel pkt e = some d.curConf.refCh) : ∃ c c',
    d.event pkt e =
      (true, (((d.dbgAssert c).addToUntil (pkt.eventToff e)).savePoints).dbgAssert c') := by
  unfold event
  dsimp only
  generalize hd : d.dbgAssert _ = d₀
  have hcur : d₀.curConf = d.curConf := by
    rw [← hd]
    rfl
  rw [hcur, (isRef_iff _).2 ref]
  simp only [Bool.not_true, Bool.false_and, Bool.false_eq_true, if_false, if_true]
  exact ⟨_, _, by rw [← hd]⟩

/-- After a reference event there are no points, and no delay. -/
theorem tracks_ref (ref : eventLabel pkt e = some d.curConf.refCh) :
    Tracks (d.event pkt e).2 ⟨[], 0⟩ := by
  obtain ⟨c, c', heq⟩ := event_isRef ref
  rw [heq]
  exact tracks_dbgAssert _ (tracks_savePoints _)

/-- A reference event counts the points, one event later. -/
theorem event_ref (h : Tracks d q) (ref : eventLabel pkt e = some d.curConf.refCh) :
    (d.event pkt e).2.hist = d.hist.counted
        ((DelayQueue.later UINT16_MAX (pkt.eventToff e) q.opens).map
          (pointBin d.curConf.refCh)) ∧
      (d.event pkt e).2.added = d.added ++
        (DelayQueue.later UINT16_MAX (pkt.eventToff e) q.opens).map fun p =>
          ⟨hidOf d.curConf.refCh p.label, delayBin p.since p.till,
            (d.hist.hists (hidOf d.curConf.refCh p.label)).ch, p.label⟩ := by
  obtain ⟨c, c', heq⟩ := event_isRef ref
  rw [heq]
  exact savePoints_spec (tracks_addToUntil (tracks_dbgAssert c h))

/-- The first reference event. -/
theorem event_first (zero : d.curNpts = 0) (ref : eventLabel pkt e = some d.curConf.refCh) :
    (d.event pkt e).2.hist = d.hist ∧ (d.event pkt e).2.added = d.added := by
  obtain ⟨c, c', heq⟩ := event_isRef ref
  rw [heq]
  exact savePoints_none (d := (d.dbgAssert c).addToUntil (pkt.eventToff e)) zero

/-- An event before the first reference event. -/
theorem event_wait (zero : d.curNpts = 0) (other : eventLabel pkt e ≠ some d.curConf.refCh) :
    ∃ c, d.event pkt e = (false, d.dbgAssert c) := by
  unfold event
  dsimp only
  generalize hd : d.dbgAssert _ = d₀
  have hcur : d₀.curConf = d.curConf := by
    rw [← hd]
    rfl
  have hzero : d₀.curNpts = 0 := by
    rw [← hd]
    exact zero
  have href : (pkt.evtFlCH e == d₀.curConf.refCh && !pkt.isTick) = false := by
    rw [hcur, ← Bool.not_eq_true, isRef_iff]
    exact other
  rw [href]
  simp only [Bool.not_false, Bool.true_and, beq_iff_eq, if_pos hzero]
  exact ⟨_, by rw [← hd]⟩

/-- Only reference events count points. -/
theorem event_keeps (other : eventLabel pkt e ≠ some d.curConf.refCh) :
    (d.event pkt e).2.hist = d.hist ∧ (d.event pkt e).2.added = d.added := by
  by_cases hzero : d.curNpts = 0
  · obtain ⟨c, heq⟩ := event_wait hzero other
    rw [heq]
    exact ⟨rfl, rfl⟩
  · obtain ⟨c, c', heq⟩ := event_isOther (Nat.pos_of_ne_zero hzero) other
    rw [heq]
    cases eventLabel pkt e with
    | none => exact ⟨rfl, rfl⟩
    | some ch => exact makeNew_hist ch _

/-- An event leaves the headers of the histograms as they are. -/
theorem event_counted (pkt : Tespkt) (e : ℕ) (d : JitterData) :
    ∃ bins, (d.event pkt e).2.hist = d.hist.counted bins := by
  by_cases href : eventLabel pkt e = some d.curConf.refCh
  · obtain ⟨c, c', heq⟩ := event_isRef href
    obtain ⟨-, hhist, -⟩ := savePoints_fold
      (List.range (((d.dbgAssert c).addToUntil (pkt.eventToff e)).curNpts - 1))
      ((d.dbgAssert c).addToUntil (pkt.eventToff e))
    rw [heq]
    exact ⟨_, hhist⟩
  · exact ⟨[], (event_keeps href).1⟩

/-! ## A publication -/

/-- The points are dropped, and the last one goes on. -/
theorem prepNext_spec (h : Tracks d q) (pub : d.publishing = true) :
    Tracks d.prepNext ⟨[], q.since⟩ ∧ d.prepNext.added = d.added := by
  have hlast : d.curNpts - 1 = q.opens.length := by
    rw [h.npts, Nat.add_sub_cancel]
  unfold prepNext
  dsimp only
  rw [if_pos pub]
  dsimp only [dbgAssert]
  rw [hlast]
  refine ⟨⟨rfl, rfl, ?_, ?_, ?_⟩, rfl⟩
  · dsimp only [List.length_nil]
    rw [Function.update_self]
    exact h.since
  · dsimp only [List.length_nil]
    rw [Function.update_self]
    exact h.till
  · dsimp only [List.length_nil]
    rw [Function.update_self]
    exact h.hid

/-! ## What does not depend on the number of ticks and the socket -/

/-- The states are the same but for the ticks, the socket and the asserts. -/
structure SameQueue (d d' : JitterData) : Prop where
  conf : d'.conf = d.conf
  curConf : d'.curConf = d.curConf
  hist : d'.hist = d.hist
  points : d'.points = d.points
  curNpts : d'.curNpts = d.curNpts
  publishing : d'.publishing = d.publishing
  added : d'.added = d.added

variable {d' d'' : JitterData}

theorem sameQueue_refl (d : JitterData) : SameQueue d d := ⟨rfl, rfl, rfl, rfl, rfl, rfl, rfl⟩

theorem SameQueue.symm (h : SameQueue d d') : SameQueue d' d :=
  ⟨h.conf.symm, h.curConf.symm, h.hist.symm, h.points.symm, h.curNpts.symm, h.publishing.symm,
    h.added.symm⟩

theorem SameQueue.trans (h : SameQueue d d') (h' : SameQueue d' d'') : SameQueue d d'' :=
  ⟨h'.conf.trans h.conf, h'.curConf.trans h.curConf, h'.hist.trans h.hist,
    h'.points.trans h.points, h'.curNpts.trans h.curNpts, h'.publishing.trans h.publishing,
    h'.added.trans h.added⟩

theorem sameQueue_dbgAssert (c : Bool) (d : JitterData) : SameQueue d (d.dbgAssert c) :=
  ⟨rfl, rfl, rfl, rfl, rfl, rfl, rfl⟩

theorem SameQueue.tracks (h : SameQueue d d') (tracks : Tracks d q) : Tracks d' q := by
  refine ⟨h.curNpts.trans tracks.npts, ?_, ?_, ?_, ?_⟩
  · rw [h.points, h.curConf]
    exact tracks.points
  · rw [h.points]
    exact tracks.since
  · rw [h.points]
    exact tracks.till
  · rw [h.points]
    exact tracks.hid

theorem SameQueue.eq (h : SameQueue d d') :
    d' = { d with ticks := d'.ticks, sock := d'.sock, dbg := d'.dbg } := by
  obtain ⟨h₁, h₂, h₃, h₄, h₅, h₆, h₇⟩ := h
  cases d'
  dsimp only at h₁ h₂ h₃ h₄ h₅ h₆ h₇
  subst h₁ h₂ h₃ h₄ h₅ h₆ h₇
  rfl

theorem SameQueue.addToUntil (h : SameQueue d d') (delay : ℕ) :
    SameQueue (d.addToUntil delay) (d'.addToUntil delay) := by
  rw [h.eq]
  exact ⟨rfl, rfl, rfl, rfl, rfl, rfl, rfl⟩

theorem SameQueue.addToSince (h : SameQueue d d') (delay : ℕ) :
    SameQueue (d.addToSince delay) (d'.addToSince delay) := by
  rw [h.eq]
  exact ⟨rfl, rfl, rfl, rfl, rfl, rfl, rfl⟩

theorem SameQueue.dbgAssert (h : SameQueue d d') (c c' : Bool) :
    SameQueue (d.dbgAssert c) (d'.dbgAssert c') :=
  ((sameQueue_dbgAssert c d).symm.trans h).trans (sameQueue_dbgAssert c' d')

theorem SameQueue.savePoints (h : SameQueue d d') : SameQueue d.savePoints d'.savePoints := by
  have hone : ∀ (p : ℕ) (d d' : JitterData), SameQueue d d' →
      SameQueue (d.savePoint p) (d'.savePoint p) := by
    intro p d d' h
    rw [h.eq]
    exact ⟨rfl, rfl, rfl, rfl, rfl, rfl, rfl⟩
  have hfold : ∀ (ps : List ℕ) (d d' : JitterData), SameQueue d d' →
      SameQueue (ps.foldl savePoint d) (ps.foldl savePoint d') := by
    intro ps
    induction ps with
    | nil => exact fun d d' h => h
    | cons p ps ih => exact fun d d' h => ih _ _ (hone p d d' h)
  have hsame := hfold (List.range (d.curNpts - 1)) d d' h
  unfold JitterData.savePoints
  dsimp only
  rw [h.curNpts, hsame.eq]
  exact ⟨rfl, rfl, rfl, rfl, rfl, rfl, rfl⟩

theorem SameQueue.makeNew (h : SameQueue d d') (ch : ℕ) :
    SameQueue (d.makeNew ch) (d'.makeNew ch) := by
  rw [h.eq]
  unfold JitterData.makeNew
  dsimp only [JitterData.dbgAssert]
  by_cases hroom : d.curNpts < MAX_SIMULT_POINTS - 1
  · rw [if_pos hroom, if_pos hroom]
    exact ⟨rfl, rfl, rfl, rfl, rfl, rfl, rfl⟩
  · rw [if_neg hroom, if_neg hroom]
    exact ⟨rfl, rfl, rfl, rfl, rfl, rfl, rfl⟩

/-- An event does the same to them. -/
theorem SameQueue.event (h : SameQueue d d') (pkt : Tespkt) (e : ℕ) :
    (d'.event pkt e).1 = (d.event pkt e).1 ∧
      SameQueue (d.event pkt e).2 (d'.event pkt e).2 := by
  unfold JitterData.event
  dsimp only
  generalize hd : d.dbgAssert _ = d₀
  generalize hd' : d'.dbgAssert _ = d₁
  have h₀ : SameQueue d₀ d₁ := by
    rw [← hd, ← hd']
    exact h.dbgAssert _ _
  rw [h₀.curConf, h₀.curNpts]
  have huntil := h₀.addToUntil (pkt.eventToff e)
  cases href : (pkt.evtFlCH e == d₀.curConf.refCh && !pkt.isTick) with
  | true =>
    simp only [Bool.not_true, Bool.false_and, Bool.false_eq_true, if_false, if_true]
    exact ⟨trivial, huntil.savePoints.dbgAssert _ _⟩
  | false =>
    simp only [Bool.not_false, Bool.true_and, beq_iff_eq, if_true, Bool.false_eq_true, if_false]
    by_cases hzero : d₀.curNpts = 0
    · rw [if_pos hzero, if_pos hzero]
      exact ⟨rfl, h₀⟩
    · rw [if_neg hzero, if_neg hzero]
      have hthere := (huntil.addToSince (pkt.eventToff e)).dbgAssert (decide (d₀.curNpts > 0))
        (decide (d₁.curNpts > 0))
      cases pkt.isTick with
      | true => exact ⟨rfl, hthere⟩
      | false => exact ⟨rfl, hthere.makeNew _⟩

/-- Events with the same delay and channel do the same, whatever frames they are in. -/
theorem event_congr {pkt' : Tespkt} {e' : ℕ} (h : eventOf pkt' e' = eventOf pkt e)
    (d : JitterData) : (d.event pkt' e').1 = (d.event pkt e).1 ∧
      SameQueue (d.event pkt e).2 (d.event pkt' e').2 := by
  have hlabel : eventLabel pkt' e' = eventLabel pkt e := congrArg Event.label h
  have hdelay : pkt'.eventToff e' = pkt.eventToff e := congrArg Event.delay h
  by_cases href : eventLabel pkt e = some d.curConf.refCh
  · obtain ⟨c₁, c₂, heq⟩ := event_isRef href
    obtain ⟨c₃, c₄, heq'⟩ := event_isRef (hlabel.trans href)
    rw [heq, heq', hdelay]
    exact ⟨rfl, ((((sameQueue_refl d).dbgAssert c₁ c₃).addToUntil _).savePoints).dbgAssert _ _⟩
  · have href' : eventLabel pkt' e' ≠ some d.curConf.refCh := fun h => href (hlabel.symm.trans h)
    by_cases hzero : d.curNpts = 0
    · obtain ⟨c, heq⟩ := event_wait hzero href
      obtain ⟨c', heq'⟩ := event_wait hzero href'
      rw [heq, heq']
      exact ⟨rfl, (sameQueue_refl d).dbgAssert c c'⟩
    · obtain ⟨c₁, c₂, heq⟩ := event_isOther (Nat.pos_of_ne_zero hzero) href
      obtain ⟨c₃, c₄, heq'⟩ := event_isOther (Nat.pos_of_ne_zero hzero) href'
      rw [heq, heq', hdelay, hlabel]
      have hadd := ((((sameQueue_refl d).dbgAssert c₁ c₃).addToUntil
        (pkt.eventToff e)).addToSince (pkt.eventToff e)).dbgAssert c₂ c₄
      cases eventLabel pkt e with
      | none => exact ⟨rfl, hadd⟩
      | some ch => exact ⟨rfl, hadd.makeNew ch⟩

theorem SameQueue.prepNext (h : SameQueue d d') : SameQueue d.prepNext d'.prepNext := by
  unfold JitterData.prepNext
  dsimp only
  rw [h.publishing]
  cases d.publishing with
  | true =>
    rw [if_pos rfl, if_pos rfl, h.eq]
    exact ⟨rfl, rfl, rfl, rfl, rfl, rfl, rfl⟩
  | false =>
    rw [if_neg Bool.false_ne_true, if_neg Bool.false_ne_true, h.eq]
    exact ⟨rfl, rfl, rfl, rfl, rfl, rfl, rfl⟩

end JitterData

end Tesd
