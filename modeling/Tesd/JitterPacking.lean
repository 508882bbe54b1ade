import Tesd.JitterBatch

/-!
# The frames of the events of a jitter histogram

The peaks and areas of a frame are processed as if each had come in a frame of its own, but for two
things that `task_jitter_pkt_hn` does once a frame: it looks for the first reference event only at
the first event of a frame, and it publishes a histogram that is due only after the last one.
-/

namespace Tesd

open DelayQueue (Event Queue Point)

/-- `singles` are frames of the type of `frame`, with one event of it each. -/
structure Singles (frame : Call) (singles : List Call) : Prop where
  valid : frame.slot.err = 0
  type : frame.slot.pkt.isPeak = true ∨ frame.slot.pkt.isArea = true
  length : singles.length = frame.slot.pkt.eventNums
  valids : ∀ s ∈ singles, s.slot.err = 0
  types : ∀ s ∈ singles, s.slot.pkt.isPeak = frame.slot.pkt.isPeak ∧
    s.slot.pkt.isArea = frame.slot.pkt.isArea
  single : ∀ s ∈ singles, s.slot.pkt.eventNums = 1
  bytes : ∀ e (h : e < singles.length), Slice.slice singles[e].slot.pkt TESPKT_HDR_LEN 8 =
    Slice.slice frame.slot.pkt (TESPKT_HDR_LEN + e * 8) 8

/-- The events of a frame. -/
def frameEvents (pkt : Tespkt) : List (Event ℕ) := (List.range pkt.eventNums).map (eventOf pkt)

/-- The points in the list, `curNpts` and the histograms are the same. -/
structure SameLive (d d' : JitterData) : Prop where
  curNpts : d'.curNpts = d.curNpts
  points : ∀ p < d.curNpts, (d'.points p).delaySince = (d.points p).delaySince ∧
    (d'.points p).delayUntil = (d.points p).delayUntil ∧ (d'.points p).hid = (d.points p).hid
  refCh : d'.hist.refCh = d.hist.refCh
  nhists : d'.hist.nhists = d.hist.nhists
  hists : ∀ h : ℕ, h < TES_JITTER_NHISTS → d'.hist.hists h = d.hist.hists h

/-- The states of the task are the same. -/
structure SameState (d d' : JitterData) : Prop extends SameLive d d' where
  ticks : d'.ticks = d.ticks

/-- Of the events after the first one, the last is of the next reference channel, none of a channel
that there is becomes a point, and no time has passed since the last one of the old reference
channel. -/
structure Leftless (d : JitterData) (rest : List (Event ℕ)) : Prop where
  last : ∀ e ∈ rest.getLast?, e.label = some d.conf.refCh
  none : DelayQueue.NoneMade (· < TES_NCHANNELS) OPEN_POINTS d.conf.refCh 0 rest
  since : DelayQueue.sinceLast d.curConf.refCh rest = 0

/-- When it makes no difference in what frames these events come. -/
def PacksWell (d : JitterData) (es : List (Event ℕ)) : Prop :=
  d.publishing = false ∨ 0 < d.curNpts ∨ (∀ e ∈ es, e.label ≠ some d.curConf.refCh) ∨
    ∃ first rest, es = first :: rest ∧ first.label = some d.curConf.refCh ∧
      (d.ticks = (d.curConf.ticks + 1) % 2 ^ 64 → Leftless d rest)

/-! ## The frames -/

section Frames

open JitterData JitterItem

variable {d : JitterData} {call frame : Call} {singles : List Call}

/-- A valid frame of peaks or areas. -/
structure PeakFrame (call : Call) : Prop where
  valid : call.slot.err = 0
  type : call.slot.pkt.isPeak = true ∨ call.slot.pkt.isArea = true

theorem PeakFrame.spec (h : PeakFrame call) : call.slot.pkt.isEvent = true ∧
    call.slot.pkt.isTick = false ∧ call.slot.pkt.isTrace = false ∧
    call.slot.pkt.trueEsize = 8 ∧ 0 < call.slot.pkt.eventNums := by
  have hcases := h.type
  unfold Tespkt.isPeak Tespkt.isArea at hcases
  simp only [Bool.and_eq_true, beq_iff_eq] at hcases
  have hev : call.slot.pkt.isEvent = true := by tauto
  have hT : call.slot.pkt.etypeT = 0 := by tauto
  have hpkt : call.slot.pkt.etypePKT ≠ TESPKT_TYPE_TRACE := by
    rcases hcases with ⟨⟨-, h⟩, -⟩ | ⟨⟨-, h⟩, -⟩ <;> rw [h] <;> decide
  have htick : call.slot.pkt.isTick = false := by
    unfold Tespkt.isTick
    rw [hT]
    exact Bool.and_false _
  have htrace : call.slot.pkt.isTrace = false := by
    unfold Tespkt.isTrace
    rw [beq_false_of_ne hpkt, Bool.and_false, Bool.false_and]
  have hvalid := (Slot.valid_of_err h.valid).1
  obtain ⟨hpos, -, hsize⟩ := Tespkt.eventNums_of_valid hvalid hev htrace
  have hone : call.slot.pkt.esize = 1 := by
    unfold Tespkt.isValid at hvalid
    rw [if_pos hev, Nat.or_eq_zero_iff] at hvalid
    have herr := hvalid.2
    unfold Tespkt.eventErrors at herr
    rw [Nat.or_eq_zero_iff] at herr
    have hlast := herr.2
    rw [if_neg (by simp [htick]), if_pos (by simpa using h.type),
      Tespkt.flag_eq_zero (by decide), not_not] at hlast
    exact hlast
  refine ⟨hev, htick, htrace, ?_, hpos⟩
  rw [hsize, hone]

/-- Event `e` of a frame. -/
theorem eventOf_eq (h : PeakFrame call) (e : ℕ) : eventOf call.slot.pkt e =
    ⟨some ((call.slot.pkt (TESPKT_HDR_LEN + e * 8 + 4)).toNat % 8),
      call.slot.pkt.u16 (TESPKT_HDR_LEN + e * 8 + 6)⟩ := by
  obtain ⟨-, htick, -, hsize, -⟩ := h.spec
  unfold eventOf eventLabel Tespkt.eventToff Tespkt.evtFlCH Tespkt.ehdr
  rw [htick, if_neg Bool.false_ne_true, hsize]

theorem Singles.peakFrame (h : Singles frame singles) : PeakFrame frame := ⟨h.valid, h.type⟩

theorem Singles.peakFrames (h : Singles frame singles) {s : Call} (hs : s ∈ singles) :
    PeakFrame s := by
  obtain ⟨hpeak, harea⟩ := h.types s hs
  refine ⟨h.valids s hs, ?_⟩
  rw [hpeak, harea]
  exact h.type

/-- The single events are those of the frame. -/
theorem Singles.events (h : Singles frame singles) :
    singles.map (fun s => eventOf s.slot.pkt 0) = frameEvents frame.slot.pkt := by
  unfold frameEvents
  apply List.ext_getElem
  · rw [List.length_map, List.length_map, List.length_range, h.length]
  · intro e he he'
    rw [List.length_map] at he
    rw [List.getElem_map, List.getElem_map, List.getElem_range,
      eventOf_eq (h.peakFrames (List.getElem_mem he)), eventOf_eq h.peakFrame, Nat.zero_mul,
      Nat.add_zero]
    have hch := Slice.slice_part (i := 4) (n := 1) (h.bytes e he) (by decide)
    have htoff := Slice.slice_part (i := 6) (n := 2) (h.bytes e he) (by decide)
    rw [Slice.slice_succ, Slice.slice_succ, Slice.slice_zero, Slice.slice_zero] at hch
    unfold Tespkt.u16
    rw [List.singleton_inj.1 hch, htoff]

/-- A frame of peaks that is not looked at. -/
theorem peak_idle {t t' : JitterTask} (hpeak : PeakFrame call)
    (pub : t.view.data.publishing = false) (h : jitterStep (.packet call) t = some t') :
    SameQueue t.view.data t'.view.data ∧ t'.view.data.ticks = t.view.data.ticks := by
  cases active : t.active with
  | false =>
    rw [jitterStep, if_neg (by simp [active])] at h
    obtain rfl := Option.some.inj h
    exact ⟨sameQueue_refl _, rfl⟩
  | true =>
    obtain ⟨-, hdata, -⟩ := jitterStep_handle active h
    obtain ⟨-, htick, -⟩ := hpeak.spec
    obtain ⟨c, c', heq⟩ := await_eq (d := t.view.data) (Or.inr htick)
    have htakes : ((t.view.data.dbgAssert c).dbgAssert c').takes call.slot.pkt call.slot.err =
        false := by
      unfold takes
      simp only [dbgAssert, pub, Bool.not_false, Bool.true_or, Bool.not_true, Bool.false_and]
    rw [hdata]
    unfold View.handle taskJitterPktHn
    dsimp only
    rw [heq, htakes]
    exact ⟨(sameQueue_dbgAssert c _).trans (sameQueue_dbgAssert c' _), rfl⟩

/-- The events of a frame of peaks, when a reference event has come. -/
def peakItems (pkt : Tespkt) : List JitterItem :=
  (List.range' 0 pkt.eventNums).map (JitterItem.event pkt)

/-- A frame of peaks that is looked at: nothing happens since the first reference event is waited
for, or the events are processed, and a histogram that is due is published. -/
theorem peak_step {t t' : JitterTask} (hpeak : PeakFrame call) (active : t.active = true)
    (pub : t.view.data.publishing = true) (h : jitterStep (.packet call) t = some t') :
    t'.active = true ∧
      ((t.view.data.curNpts = 0 ∧
          eventLabel call.slot.pkt 0 ≠ some t.view.data.curConf.refCh ∧
          SameQueue t.view.data t'.view.data ∧ t'.view.data.ticks = t.view.data.ticks) ∨
        ((0 < t.view.data.curNpts ∨
            eventLabel call.slot.pkt 0 = some t.view.data.curConf.refCh) ∧
          ((t.view.data.ticks ≠ (t.view.data.curConf.ticks + 1) % 2 ^ 64 ∧
              SameQueue (applyAll (peakItems call.slot.pkt) t.view.data) t'.view.data ∧
              t'.view.data.ticks = t.view.data.ticks) ∨
            (t.view.data.ticks = (t.view.data.curConf.ticks + 1) % 2 ^ 64 ∧
              SameQueue (applyAll (peakItems call.slot.pkt) t.view.data).prepNext t'.view.data ∧
              t'.view.data.ticks = 1)))) := by
  obtain ⟨active', hdata, hok⟩ := jitterStep_handle active h
  obtain ⟨hev, htick, htrace, -, hnums⟩ := hpeak.spec
  refine ⟨active', ?_⟩
  obtain ⟨c, c', heq⟩ := await_eq (d := t.view.data) (Or.inr htick)
  have htakes : ((t.view.data.dbgAssert c).dbgAssert c').takes call.slot.pkt call.slot.err =
      true := by
    unfold takes Tespkt.isTraceLong
    simp [dbgAssert, pub, hpeak.valid, hev, htrace]
  have hcount : ((t.view.data.dbgAssert c).dbgAssert c').countTick call.slot.pkt =
      (t.view.data.dbgAssert c).dbgAssert c' := by
    unfold countTick
    rw [if_neg (by simp [htick])]
  have hsame : SameQueue t.view.data ((t.view.data.dbgAssert c).dbgAssert c') :=
    (sameQueue_dbgAssert c _).trans (sameQueue_dbgAssert c' _)
  have hticks : ((t.view.data.dbgAssert c).dbgAssert c').ticks = t.view.data.ticks := rfl
  rw [hdata]
  unfold View.handle taskJitterPktHn at hok ⊢
  dsimp only at hok ⊢
  rw [heq, htakes, hcount] at hok ⊢
  generalize (t.view.data.dbgAssert c).dbgAssert c' = d at hok hsame hticks ⊢
  simp only [Bool.not_true, Bool.false_eq_true, if_false] at hok ⊢
  have hitems := events_items call.slot.pkt call.slot.pkt.eventNums 0 d
  obtain ⟨hcounts, -⟩ := events_spec call.slot.pkt call.slot.pkt.eventNums 0 d
  rcases hevents : d.events call.slot.pkt call.slot.pkt.eventNums 0 with ⟨go, d'⟩
  rw [hevents] at hok hitems hcounts
  dsimp only at hok hitems hcounts
  rcases hitems with ⟨rfl, heq, hfirst⟩ | ⟨rfl, hzero, hfirst, c, rfl⟩
  · right
    have hdue : d'.ticks = (d'.curConf.ticks + 1) % 2 ^ 64 ↔
        t.view.data.ticks = (t.view.data.curConf.ticks + 1) % 2 ^ 64 := by
      rw [hcounts.ticks, hcounts.curConf, hticks, hsame.curConf]
    have hall : SameQueue (applyAll (peakItems call.slot.pkt) t.view.data) d' := by
      rw [heq]
      exact sameQueue_applyAll _ hsame
    refine ⟨?_, ?_⟩
    · rw [← hsame.curNpts, ← hsame.curConf]
      exact hfirst hnums
    · dsimp only at hok ⊢
      unfold publish at hok ⊢
      by_cases hpublish : d'.ticks = (d'.curConf.ticks + 1) % 2 ^ 64
      · right
        rw [if_pos hpublish] at hok
        rw [if_pos hpublish]
        refine ⟨hdue.1 hpublish, ?_⟩
        generalize d'.sock.send d'.hist.encode = sent at hok ⊢
        rcases sent with ⟨sent, sock⟩
        cases sent with
        | false => exact absurd rfl hok
        | true =>
          have hsock : SameQueue d' { d' with sock := sock } :=
            ⟨rfl, rfl, rfl, rfl, rfl, rfl, rfl⟩
          refine ⟨(hall.trans hsock).prepNext.trans (sameQueue_dbgAssert _ _), ?_⟩
          unfold prepNext
          dsimp only
          rw [if_pos (hcounts.publishing.trans (hsame.publishing.trans pub))]
          rfl
      · left
        rw [if_neg hpublish]
        exact ⟨fun h => hpublish (hdue.2 h), hall.trans (sameQueue_dbgAssert _ _),
          hcounts.ticks.trans hticks⟩
  · left
    refine ⟨hsame.curNpts.symm.trans hzero, ?_, hsame.trans (sameQueue_dbgAssert c d), hticks⟩
    rw [← hsame.curConf]
    exact hfirst

end Frames

/-! ## The runs of single events -/

section Runs

open JitterData JitterItem

variable {t t' : JitterTask} {d d' : JitterData} {singles : List Call} {q : Queue ℕ}

/-- Frames of one peak each. -/
def PeakSingles (singles : List Call) : Prop :=
  ∀ s ∈ singles, PeakFrame s ∧ s.slot.pkt.eventNums = 1

/-- The events of these. -/
def singleItems (singles : List Call) : List JitterItem :=
  singles.map fun s => JitterItem.event s.slot.pkt 0

theorem peakItems_single {call : Call} (h : call.slot.pkt.eventNums = 1) :
    peakItems call.slot.pkt = [JitterItem.event call.slot.pkt 0] := by
  unfold peakItems
  rw [h]
  rfl

/-- Nothing happens before the first tick. -/
theorem singles_idle (hsingles : PeakSingles singles) (pub : t.view.data.publishing = false)
    (h : Runs.run jitterStep (singles.map .packet) t = some t') :
    SameQueue t.view.data t'.view.data ∧ t'.view.data.ticks = t.view.data.ticks := by
  induction singles generalizing t with
  | nil =>
    obtain rfl := Option.some.inj h
    exact ⟨sameQueue_refl _, rfl⟩
  | cons s singles ih =>
    obtain ⟨t₁, ht, hrest⟩ := Runs.run_cons h
    obtain ⟨hsame, hticks⟩ := peak_idle (hsingles s List.mem_cons_self).1 pub ht
    obtain ⟨hsame', hticks'⟩ := ih (fun s hs => hsingles s (List.mem_cons_of_mem _ hs))
      (hsame.publishing.trans pub) hrest
    exact ⟨hsame.trans hsame', hticks'.trans hticks⟩

/-- Nothing happens as long as no reference event comes. -/
theorem singles_wait (hsingles : PeakSingles singles) (active : t.active = true)
    (pub : t.view.data.publishing = true) (zero : t.view.data.curNpts = 0)
    (other : ∀ s ∈ singles, eventLabel s.slot.pkt 0 ≠ some t.view.data.curConf.refCh)
    (h : Runs.run jitterStep (singles.map .packet) t = some t') :
    t'.active = true ∧ SameQueue t.view.data t'.view.data ∧
      t'.view.data.ticks = t.view.data.ticks := by
  induction singles generalizing t with
  | nil =>
    obtain rfl := Option.some.inj h
    exact ⟨active, sameQueue_refl _, rfl⟩
  | cons s singles ih =>
    obtain ⟨t₁, ht, hrest⟩ := Runs.run_cons h
    obtain ⟨active₁, hcases⟩ := peak_step (hsingles s List.mem_cons_self).1 active pub ht
    rcases hcases with ⟨-, -, hsame, hticks⟩ | ⟨hgo, -⟩
    · obtain ⟨active', hsame', hticks'⟩ := ih
        (fun s hs => hsingles s (List.mem_cons_of_mem _ hs)) active₁
        (hsame.publishing.trans pub) (hsame.curNpts.trans zero)
        (fun s' hs' => by
          rw [hsame.curConf]
          exact other s' (List.mem_cons_of_mem _ hs')) hrest
      exact ⟨active', hsame.trans hsame', hticks'.trans hticks⟩
    · rcases hgo with hpos | href
      · exact absurd zero (Nat.ne_of_gt hpos)
      · exact absurd href (other s List.mem_cons_self)

/-- The events are processed one by one when a reference event has come and no histogram is due. -/
theorem singles_run (hsingles : PeakSingles singles) (active : t.active = true)
    (pub : t.view.data.publishing = true) (pos : 0 < t.view.data.curNpts)
    (notDue : t.view.data.ticks ≠ (t.view.data.curConf.ticks + 1) % 2 ^ 64)
    (h : Runs.run jitterStep (singles.map .packet) t = some t') :
    SameQueue (applyAll (singleItems singles) t.view.data) t'.view.data ∧
      t'.view.data.ticks = t.view.data.ticks ∧ 0 < t'.view.data.curNpts := by
  induction singles generalizing t with
  | nil =>
    obtain rfl := Option.some.inj h
    exact ⟨sameQueue_refl _, rfl, pos⟩
  | cons s singles ih =>
    obtain ⟨t₁, ht, hrest⟩ := Runs.run_cons h
    obtain ⟨hpeak, hone⟩ := hsingles s List.mem_cons_self
    obtain ⟨active₁, hcases⟩ := peak_step hpeak active pub ht
    rcases hcases with ⟨hzero, -⟩ | ⟨-, ⟨-, hsame, hticks⟩ | ⟨hdue, -⟩⟩
    · exact absurd hzero (Nat.ne_of_gt pos)
    · rw [peakItems_single hone] at hsame
      obtain ⟨hcounts, hgo⟩ := event_cases s.slot.pkt 0 t.view.data
      have hpos₁ : 0 < t₁.view.data.curNpts := by
        rw [hsame.curNpts]
        rcases hgo with ⟨-, hzero⟩ | ⟨-, hpos⟩
        · exact absurd hzero (Nat.ne_of_gt pos)
        · exact hpos
      have hcur : t₁.view.data.curConf = t.view.data.curConf :=
        hsame.curConf.trans hcounts.curConf
      obtain ⟨hsame', hticks', hpos'⟩ := ih
        (fun s hs => hsingles s (List.mem_cons_of_mem _ hs)) active₁
        (hsame.publishing.trans (hcounts.publishing.trans pub)) hpos₁
        (by rw [hticks, hcur]; exact notDue) hrest
      exact ⟨(sameQueue_applyAll _ hsame).trans hsame', hticks'.trans hticks, hpos'⟩
    · exact absurd hdue notDue

/-- The same events in other frames. -/
theorem applyAll_congr {items items' : List JitterItem}
    (h : items'.map timed = items.map timed) (d : JitterData) :
    SameQueue (applyAll items d) (applyAll items' d) := by
  induction items generalizing items' d with
  | nil =>
    obtain rfl := List.map_eq_nil_iff.1 h
    exact sameQueue_refl d
  | cons i items ih =>
    obtain ⟨i', rest, rfl, htimed, hrest⟩ := List.map_eq_cons_iff.1 h
    rw [applyAll_cons, applyAll_cons]
    refine SameQueue.trans ?_ (ih hrest _)
    apply sameQueue_applyAll
    cases i with
    | event pkt e =>
      cases i' with
      | event pkt' e' => exact (event_congr (Option.some.inj htimed) d).2
      | publication => cases htimed
    | publication =>
      cases i' with
      | event pkt' e' => cases htimed
      | publication => exact sameQueue_refl _

/-- The points and the histogram after these events. -/
theorem tracks_passes {items : List JitterItem} (events : items.any isPublication = false)
    (h : JitterData.Tracks d q) :
    JitterData.Tracks (applyAll items d) (DelayQueue.passes OPEN_POINTS UINT16_MAX d.curConf.refCh
        (items.filterMap timed) ([], q)).2 ∧
      (applyAll items d).curConf = d.curConf ∧
      (applyAll items d).hist = d.hist.counted ((DelayQueue.passes OPEN_POINTS UINT16_MAX
        d.curConf.refCh (items.filterMap timed) ([], q)).1.map (pointBin d.curConf.refCh)) := by
  induction items using List.reverseRecOn with
  | nil => exact ⟨h, rfl, rfl⟩
  | append_singleton items i ih =>
    rw [List.any_append, Bool.or_eq_false_iff] at events
    obtain ⟨htracks, hcur, hhist⟩ := ih events.1
    cases i with
    | publication => cases events.2
    | event pkt e =>
      have htimed : (items ++ [JitterItem.event pkt e]).filterMap timed =
          items.filterMap timed ++ [eventOf pkt e] := by
        rw [List.filterMap_append]
        rfl
      obtain ⟨hcounts, -⟩ := event_cases pkt e (applyAll items d)
      rw [applyAll_concat, htimed, DelayQueue.passes_concat, DelayQueue.pass]
      refine ⟨?_, hcounts.curConf.trans hcur, ?_⟩
      · by_cases href : (eventOf pkt e).label = some d.curConf.refCh
        · rw [if_pos href]
          exact tracks_ref (href.trans (by rw [hcur]))
        · rw [if_neg href]
          exact event_other htracks fun h => href (h.trans (by rw [hcur]))
      · by_cases href : (eventOf pkt e).label = some d.curConf.refCh
        · rw [if_pos href, JitterItem.apply,
            (event_ref htracks (href.trans (by rw [hcur]))).1, hhist, hcur, List.map_append,
            JitterHist.counted_append]
          rfl
        · rw [if_neg href, JitterItem.apply,
            (event_keeps fun h => href (h.trans (by rw [hcur]))).1]
          exact hhist

end Runs

/-! ## A histogram that is due at the first reference event -/

section Due

open JitterData JitterItem

variable {d d' a b : JitterData} {items : List JitterItem} {q : Queue ℕ} {since refCh : ℕ}

theorem sameLive_of_sameQueue (h : SameQueue d d') : SameLive d d' := by
  refine ⟨h.curNpts, fun p _ => ?_, ?_, ?_, fun k _ => ?_⟩
  · rw [h.points]
    exact ⟨rfl, rfl, rfl⟩
  · rw [h.hist]
  · rw [h.hist]
  · rw [h.hist]

theorem SameLive.symm (h : SameLive d d') : SameLive d' d := by
  refine ⟨h.curNpts.symm, fun p hp => ?_, h.refCh.symm, h.nhists.symm, fun k hk =>
    (h.hists k hk).symm⟩
  rw [h.curNpts] at hp
  obtain ⟨h₁, h₂, h₃⟩ := h.points p hp
  exact ⟨h₁.symm, h₂.symm, h₃.symm⟩

theorem SameLive.trans {d'' : JitterData} (h : SameLive d d') (h' : SameLive d' d'') :
    SameLive d d'' := by
  refine ⟨h'.curNpts.trans h.curNpts, fun p hp => ?_, h'.refCh.trans h.refCh,
    h'.nhists.trans h.nhists, fun k hk => (h'.hists k hk).trans (h.hists k hk)⟩
  obtain ⟨h₁, h₂, h₃⟩ := h.points p hp
  rw [← h.curNpts] at hp
  obtain ⟨h₄, h₅, h₆⟩ := h'.points p hp
  exact ⟨h₄.trans h₁, h₅.trans h₂, h₆.trans h₃⟩

/-- The points that are counted in the histogram that there is are of channels that there are. -/
theorem hidOf_eq_zero_iff {ch : ℕ} (href : refCh ≤ TES_JITTER_NHISTS) (other : ch ≠ refCh) :
    hidOf refCh ch = 0 ↔ ch < TES_NCHANNELS := by
  unfold TES_JITTER_NHISTS TES_NCHANNELS at href
  unfold hidOf TES_NCHANNELS
  split_ifs <;> omega

/-- Nothing is counted in the one histogram just if the points are of channels that there are not. -/
theorem counted_points_iff (hist : JitterHist) {ps : List (Point ℕ)}
    (ref : refCh ≤ TES_JITTER_NHISTS) (empty : (hist.hists 0).bins = fun _ => 0)
    (few : ps.length < 2 ^ 32) (other : ∀ p ∈ ps, p.label ≠ refCh) :
    (hist.counted (ps.map (pointBin refCh))).hists 0 = hist.hists 0 ↔
      ∀ p ∈ ps, ¬ p.label < TES_NCHANNELS := by
  rw [JitterHist.counted_empty empty (by rwa [List.length_map])]
  constructor
  · intro hnone p hp hlt
    apply hnone (delayBin p.since p.till).toNat
    refine List.mem_map.2 ⟨p, hp, ?_⟩
    unfold pointBin
    rw [(hidOf_eq_zero_iff ref (other p hp)).2 hlt]
  · intro hnone i hmem
    obtain ⟨p, hp, heq⟩ := List.mem_map.1 hmem
    exact hnone p hp ((hidOf_eq_zero_iff ref (other p hp)).1 (congrArg Prod.fst heq))

theorem prepNext_hists_zero (d : JitterData) : d.prepNext.hist.hists 0 =
    ⟨(histChannels d.conf.refCh TES_JITTER_NHISTS 0).getD 0 0, fun _ => 0⟩ := by
  rw [prepNext_hist]
  rfl

/-- One publication, before or after the events. -/
theorem sameLive_iff_leftless (tracks : JitterData.Tracks d ⟨[], 0⟩) (pub : d.publishing = true)
    (ref : d.conf.refCh ≤ TES_JITTER_NHISTS) (events : items.any isPublication = false)
    (labels : ∀ e ∈ items.filterMap timed, e.label ≠ none)
    (few : (items.filterMap timed).length < 2 ^ 16) :
    SameLive (applyAll items d).prepNext (applyAll items d.prepNext) ↔
      Leftless d (items.filterMap timed) := by
  obtain ⟨hconf, hpub, -⟩ := applyAll_conf items d
  obtain ⟨htracks, -, -⟩ := tracks_passes events tracks
  obtain ⟨hlate, -⟩ := prepNext_spec htracks (hpub.trans pub)
  rw [DelayQueue.since_passes] at hlate
  obtain ⟨hearly, -⟩ := prepNext_spec tracks pub
  obtain ⟨hnext, -, hhist⟩ := tracks_passes events hearly
  rw [prepNext_curConf] at hnext hhist
  have hzero : (applyAll items d).prepNext.hist.hists 0 = d.prepNext.hist.hists 0 := by
    rw [prepNext_hists_zero, prepNext_hists_zero, hconf]
  have hfew := DelayQueue.length_passes OPEN_POINTS UINT16_MAX d.conf.refCh
    (items.filterMap timed) ([], ⟨[], 0⟩)
  have hcounted := counted_points_iff d.prepNext.hist ref (by rw [prepNext_hists_zero]) (by
      dsimp only [List.length_nil] at hfew
      omega)
    (DelayQueue.label_ne_of_passes OPEN_POINTS UINT16_MAX d.conf.refCh (items.filterMap timed))
  rw [← hhist] at hcounted
  constructor
  · intro same
    have hnil : (DelayQueue.passes OPEN_POINTS UINT16_MAX d.conf.refCh (items.filterMap timed)
        ([], ⟨[], 0⟩)).2.opens = [] := by
      have hnpts := same.curNpts
      rw [hlate.npts, hnext.npts] at hnpts
      exact List.length_eq_zero_iff.1 (by simpa using hnpts)
    have hlast := (DelayQueue.opens_passes UINT16_MAX d.conf.refCh (by decide) labels []).1 hnil
    refine ⟨hlast, (DelayQueue.forall_passes_of_nil hnil _).1 (hcounted.1 ?_), ?_⟩
    · exact (same.hists 0 (by decide)).trans hzero
    · have hpoint := (same.points 0 (by rw [hlate.npts]; exact Nat.one_pos)).1
      have hnextSince := hnext.since
      have hlateSince := hlate.since
      rw [DelayQueue.queue_passes_of_last UINT16_MAX (by decide) labels hlast] at hnextSince
      rw [List.length_nil] at hlateSince hnextSince
      rw [hnextSince, hlateSince] at hpoint
      dsimp only [UINT16_MAX] at hpoint
      omega
  · intro left
    have hqueue := DelayQueue.queue_passes_of_last UINT16_MAX (by decide : 0 < OPEN_POINTS) labels
      left.last []
    rw [hqueue] at hnext
    rw [left.since, Nat.zero_min] at hlate
    refine ⟨?_, fun p hp => ?_, ?_, ?_, fun k hk => ?_⟩
    · rw [hlate.npts, hnext.npts]
    · rw [hlate.npts] at hp
      obtain rfl : p = 0 := by simpa using hp
      exact ⟨hnext.since.trans hlate.since.symm, hnext.till.trans hlate.till.symm,
        hnext.hid.trans hlate.hid.symm⟩
    · rw [hhist, prepNext_hist, prepNext_hist, hconf]
      rfl
    · rw [hhist, prepNext_hist, prepNext_hist]
      rfl
    · obtain rfl : k = 0 := by
        unfold TES_JITTER_NHISTS TES_NCHANNELS at hk
        omega
      have hnone := (DelayQueue.forall_passes_of_nil (by rw [hqueue]) _).2 left.none
      exact (hcounted.2 hnone).trans hzero.symm

end Due

/-! ## All states -/

/-- What holds of the ticks of an active task: a histogram that is due once a reference event has
come has been published. -/
structure NotDueInv (t : JitterTask) : Prop where
  conf : 0 < t.view.data.conf.ticks ∧ t.view.data.conf.ticks < 2 ^ 64
  notDue : t.active = true → 0 < t.view.data.curNpts →
    t.view.data.ticks ≠ (t.view.data.curConf.ticks + 1) % 2 ^ 64

section Step

open JitterData JitterItem

variable {t t' t₁ t₂ : JitterTask} {frame : Call} {singles : List Call}

theorem one_ne_due {ticks : ℕ} (h : 0 < ticks ∧ ticks < 2 ^ 64) : 1 ≠ (ticks + 1) % 2 ^ 64 := by
  omega

/-- After a frame no histogram is due that is under way, unless nothing has been done. -/
theorem handle_notDue (call : Call) (v : View JitterData)
    (ok : (v.handle taskJitterPktHn call).1 ≠ .error) :
    let d := (v.handle taskJitterPktHn call).2
    d.conf = v.data.conf ∧
      (d.ticks ≠ (d.curConf.ticks + 1) % 2 ^ 64 ∨ (d.ticks = 1 ∧ d.curConf = v.data.conf) ∨
        d.curNpts = 0 ∨ (d.ticks = v.data.ticks ∧ d.curConf = v.data.curConf ∧
          d.curNpts = v.data.curNpts)) := by
  unfold View.handle taskJitterPktHn at ok ⊢
  dsimp only at ok ⊢
  obtain ⟨hticks, hconf, hcur, -, hnpts, -⟩ := await_spec call.slot.pkt v.data
  generalize v.data.await call.slot.pkt = d at ok hticks hconf hcur hnpts ⊢
  cases htakes : d.takes call.slot.pkt call.slot.err with
  | false => exact ⟨hconf, Or.inr (Or.inr (Or.inr ⟨hticks, hcur, hnpts⟩))⟩
  | true =>
    rw [htakes] at ok
    simp only [Bool.not_true, Bool.false_eq_true, if_false] at ok ⊢
    obtain ⟨-, cconf, -, -, cnpts, cpub⟩ := countTick_spec htakes
    have hitems := events_items call.slot.pkt call.slot.pkt.eventNums 0
      (d.countTick call.slot.pkt)
    obtain ⟨hsame, -⟩ := events_spec call.slot.pkt call.slot.pkt.eventNums 0
      (d.countTick call.slot.pkt)
    rcases hev : (d.countTick call.slot.pkt).events call.slot.pkt call.slot.pkt.eventNums 0 with
      ⟨go, d'⟩
    rw [hev] at hitems hsame ok
    dsimp only at hitems hsame ok ⊢
    have hconf' := hsame.conf.trans (cconf.trans hconf)
    cases go with
    | false =>
      rcases hitems with ⟨hgo, -⟩ | ⟨-, hzero, -, c, rfl⟩
      · cases hgo
      · exact ⟨hconf', Or.inr (Or.inr (Or.inl hzero))⟩
    | true =>
      dsimp only at ok ⊢
      rcases publish_cases d' (hsame.publishing.trans cpub) with
        ⟨hnot, -, hkeep, -⟩ | ⟨-, -, pconf, pcur, pticks, -⟩ | herror
      · refine ⟨hkeep.conf.trans hconf', Or.inl ?_⟩
        rw [hkeep.ticks, hkeep.curConf]
        exact hnot
      · exact ⟨pconf.trans hconf', Or.inr (Or.inl ⟨pticks, pcur.trans hconf'⟩)⟩
      · exact absurd herror ok

theorem notDueInv_step (e : JitterEvent) (t t' : JitterTask) (inv : NotDueInv t)
    (h : jitterStep e t = some t') : NotDueInv t' := by
  cases e with
  | packet call =>
    cases active : t.active with
    | false =>
      rw [jitterStep, if_neg (by simp [active])] at h
      obtain rfl := Option.some.inj h
      exact inv
    | true =>
      obtain ⟨-, hdata, hok⟩ := jitterStep_handle active h
      obtain ⟨hconf, hcases⟩ := handle_notDue call t.view hok
      rw [← hdata] at hconf hcases
      refine ⟨?_, fun _ hpos => ?_⟩
      · rw [hconf]
        exact inv.conf
      · rcases hcases with hnot | ⟨hticks, hcur⟩ | hzero | ⟨hticks, hcur, hnpts⟩
        · exact hnot
        · rw [hticks, hcur]
          exact one_ne_due inv.conf
        · exact absurd hzero (Nat.ne_of_gt hpos)
        · rw [hticks, hcur]
          exact inv.notDue active (hnpts ▸ hpos)
  | request refCh ticks =>
    obtain rfl := Option.some.inj h
    dsimp only
    unfold taskJitterReqHn
    dsimp only
    split_ifs with hbad
    · exact inv
    · rw [not_or] at hbad
      exact ⟨⟨Nat.pos_of_ne_zero hbad.1, ticks.toNat_lt⟩, inv.notDue⟩
  | activate =>
    obtain rfl := Option.some.inj h
    exact ⟨inv.conf, fun _ hpos => absurd hpos (Nat.lt_irrefl 0)⟩
  | deactivate =>
    obtain rfl := Option.some.inj h
    exact ⟨inv.conf, fun active => Bool.noConfusion active⟩

/-- The frame and the frames with one event each leave the same, and the ticks too. -/
theorem sameState_iff {a b : JitterData} (h₁ : SameQueue a t₁.view.data)
    (h₂ : SameQueue b t₂.view.data) (ticks : t₂.view.data.ticks = t₁.view.data.ticks) :
    SameState t₁.view.data t₂.view.data ↔ SameLive a b := by
  constructor
  · intro same
    exact ((sameLive_of_sameQueue h₁).trans same.toSameLive).trans
      (sameLive_of_sameQueue h₂).symm
  · intro same
    exact ⟨((sameLive_of_sameQueue h₁).symm.trans same).trans (sameLive_of_sameQueue h₂), ticks⟩

theorem timed_singleItems (singles : List Call) : (singleItems singles).map timed =
    singles.map fun s => some (eventOf s.slot.pkt 0) := by
  unfold singleItems
  rw [List.map_map]
  rfl

theorem timed_peakItems (pkt : Tespkt) : (peakItems pkt).map timed =
    (frameEvents pkt).map some := by
  unfold peakItems frameEvents
  rw [List.map_map, List.map_map, List.range_eq_range']
  rfl

/-- Once a reference event has come, one has come. -/
theorem peak_pos {call : Call} (hpeak : PeakFrame call) (one : call.slot.pkt.eventNums = 1)
    (active : t.active = true) (pub : t.view.data.publishing = true)
    (ref : 0 < t.view.data.curNpts ∨
      eventLabel call.slot.pkt 0 = some t.view.data.curConf.refCh)
    (h : jitterStep (.packet call) t = some t') :
    t'.active = true ∧ t'.view.data.publishing = true ∧ 0 < t'.view.data.curNpts := by
  obtain ⟨active', hcases⟩ := peak_step hpeak active pub h
  rw [peakItems_single one] at hcases
  obtain ⟨hcounts, hgo⟩ := event_cases call.slot.pkt 0 t.view.data
  have hpub := hcounts.publishing.trans pub
  rcases hcases with ⟨hzero, hother, -⟩ | ⟨-, ⟨-, hsame, -⟩ | ⟨-, hsame, -⟩⟩
  · rcases ref with hpos | href
    · exact absurd hzero (Nat.ne_of_gt hpos)
    · exact absurd href hother
  · refine ⟨active', hsame.publishing.trans hpub, ?_⟩
    rw [hsame.curNpts]
    rcases ref with hpos | href
    · rcases hgo with ⟨-, hzero⟩ | ⟨-, hpos'⟩
      · exact absurd hzero (Nat.ne_of_gt hpos)
      · exact hpos'
    · exact (tracks_ref href).npts_pos
  · refine ⟨active', ?_, ?_⟩
    · rw [hsame.publishing]
      exact (apply_conf .publication _).2.1.trans hpub
    · rw [hsame.curNpts]
      unfold prepNext
      dsimp only
      rw [if_pos (show (applyAll [JitterItem.event call.slot.pkt 0] t.view.data).publishing = true
        from hpub)]
      exact Nat.one_pos

theorem singles_pos (hsingles : PeakSingles singles) (active : t.active = true)
    (pub : t.view.data.publishing = true)
    (ref : 0 < t.view.data.curNpts ∨
      ∃ s ∈ singles, eventLabel s.slot.pkt 0 = some t.view.data.curConf.refCh)
    (h : Runs.run jitterStep (singles.map .packet) t = some t') :
    0 < t'.view.data.curNpts := by
  induction singles generalizing t with
  | nil =>
    obtain rfl := Option.some.inj h
    rcases ref with hpos | ⟨s, hs, -⟩
    · exact hpos
    · cases hs
  | cons s singles ih =>
    obtain ⟨t₁, ht, hrest⟩ := Runs.run_cons h
    obtain ⟨hpeak, hone⟩ := hsingles s List.mem_cons_self
    have hlater : PeakSingles singles := fun s hs => hsingles s (List.mem_cons_of_mem _ hs)
    by_cases hnow : 0 < t.view.data.curNpts ∨
        eventLabel s.slot.pkt 0 = some t.view.data.curConf.refCh
    · obtain ⟨active₁, pub₁, hpos⟩ := peak_pos hpeak hone active pub hnow ht
      exact ih hlater active₁ pub₁ (Or.inl hpos) hrest
    · obtain ⟨active₁, hcases⟩ := peak_step hpeak active pub ht
      rcases hcases with ⟨-, -, hsame, -⟩ | ⟨hgo, -⟩
      · refine ih hlater active₁ (hsame.publishing.trans pub) (Or.inr ?_) hrest
        rw [hsame.curConf]
        rcases ref with hpos | ⟨s', hs', href⟩
        · exact absurd (Or.inl hpos) hnow
        · rcases List.mem_cons.1 hs' with rfl | hs'
          · exact absurd (Or.inr href) hnow
          · exact ⟨s', hs', href⟩
      · exact absurd hgo hnow

/-- The first event is no reference event: the frame changes nothing. -/
theorem packing_wait {es : List (Event ℕ)} (hsingles : PeakSingles singles)
    (hevents : singles.map (fun s => eventOf s.slot.pkt 0) = es) (active : t.active = true)
    (pub : t.view.data.publishing = true) (zero : t.view.data.curNpts = 0)
    (other : ∀ e ∈ es.head?, e.label ≠ some t.view.data.curConf.refCh)
    (hsame : SameQueue t.view.data t₁.view.data) (hticks : t₁.view.data.ticks = t.view.data.ticks)
    (h₂ : Runs.run jitterStep (singles.map .packet) t = some t₂) :
    SameState t₁.view.data t₂.view.data ↔ PacksWell t.view.data es := by
  by_cases href : ∃ s ∈ singles, eventLabel s.slot.pkt 0 = some t.view.data.curConf.refCh
  · have hpos := singles_pos hsingles active pub (Or.inr href) h₂
    refine ⟨fun same => ?_, fun packs => ?_⟩
    · have hnpts := same.curNpts
      rw [hsame.curNpts, zero] at hnpts
      exact absurd hnpts (Nat.ne_of_gt hpos)
    · obtain ⟨s, hs, hlabel⟩ := href
      rcases packs with hno | hpos | hnone | ⟨first, rest, rfl, hfirst, -⟩
      · exact Bool.noConfusion (pub.symm.trans hno)
      · exact absurd zero (Nat.ne_of_gt hpos)
      · have hmem : eventOf s.slot.pkt 0 ∈ es := by
          rw [← hevents]
          exact List.mem_map_of_mem hs
        exact absurd hlabel (hnone _ hmem)
      · exact absurd hfirst (other first rfl)
  · have hother : ∀ s ∈ singles, eventLabel s.slot.pkt 0 ≠ some t.view.data.curConf.refCh :=
      fun s hs hlabel => href ⟨s, hs, hlabel⟩
    obtain ⟨-, hsame₂, hticks₂⟩ := singles_wait hsingles active pub zero hother h₂
    have hstate := (sameState_iff hsame hsame₂ (hticks₂.trans hticks.symm)).2
      (sameLive_of_sameQueue (sameQueue_refl _))
    refine ⟨fun _ => Or.inr (Or.inr (Or.inl fun e he => ?_)), fun _ => hstate⟩
    rw [← hevents] at he
    obtain ⟨s, hs, rfl⟩ := List.mem_map.1 he
    exact hother s hs

/-- No histogram is due: the events are processed one by one. -/
theorem packing_run (hsingles : PeakSingles singles) (active : t.active = true)
    (pub : t.view.data.publishing = true)
    (ref : 0 < t.view.data.curNpts ∨ ∃ s ss, singles = s :: ss ∧
      eventLabel s.slot.pkt 0 = some t.view.data.curConf.refCh)
    (notDue : t.view.data.ticks ≠ (t.view.data.curConf.ticks + 1) % 2 ^ 64)
    (h₂ : Runs.run jitterStep (singles.map .packet) t = some t₂) :
    SameQueue (applyAll (singleItems singles) t.view.data) t₂.view.data ∧
      t₂.view.data.ticks = t.view.data.ticks := by
  by_cases hpos : 0 < t.view.data.curNpts
  · obtain ⟨hsame, hticks, -⟩ := singles_run hsingles active pub hpos notDue h₂
    exact ⟨hsame, hticks⟩
  · rcases ref with hno | ⟨s, ss, rfl, hlabel⟩
    · exact absurd hno hpos
    · obtain ⟨t', ht, hrest⟩ := Runs.run_cons h₂
      obtain ⟨hpeak, hone⟩ := hsingles s List.mem_cons_self
      obtain ⟨active', pub', hpos'⟩ := peak_pos hpeak hone active pub (Or.inr hlabel) ht
      obtain ⟨-, hcases⟩ := peak_step hpeak active pub ht
      rcases hcases with ⟨-, hother, -⟩ | ⟨-, ⟨-, hsame, hticks⟩ | ⟨hdue, -⟩⟩
      · exact absurd hlabel hother
      · rw [peakItems_single hone] at hsame
        obtain ⟨hcounts, -⟩ := event_cases s.slot.pkt 0 t.view.data
        have hcur : t'.view.data.curConf = t.view.data.curConf :=
          hsame.curConf.trans hcounts.curConf
        obtain ⟨hsame', hticks', -⟩ := singles_run
          (fun s hs => hsingles s (List.mem_cons_of_mem _ hs)) active' pub' hpos'
          (by rw [hticks, hcur]; exact notDue) hrest
        exact ⟨(sameQueue_applyAll _ hsame).trans hsame', hticks'.trans hticks⟩
      · exact absurd hdue notDue

theorem leftless_congr {d d' : JitterData} {rest : List (Event ℕ)} (hconf : d'.conf = d.conf)
    (hcur : d'.curConf = d.curConf) : Leftless d' rest ↔ Leftless d rest := by
  constructor
  · rintro ⟨hlast, hnone, hsince⟩
    rw [hconf] at hlast hnone
    rw [hcur] at hsince
    exact ⟨hlast, hnone, hsince⟩
  · rintro ⟨hlast, hnone, hsince⟩
    rw [← hconf] at hlast hnone
    rw [← hcur] at hsince
    exact ⟨hlast, hnone, hsince⟩

theorem events_singleItems (singles : List Call) : (singleItems singles).any isPublication = false ∧
    (singleItems singles).filterMap timed = singles.map fun s => eventOf s.slot.pkt 0 := by
  induction singles with
  | nil => exact ⟨rfl, rfl⟩
  | cons s singles ih => exact ⟨ih.1, congrArg (_ :: ·) ih.2⟩

/-- A histogram is due at the first event. -/
theorem packing_due {s : Call} {ss : List Call} (hsingles : PeakSingles (s :: ss))
    (few : ss.length < 2 ^ 16) (active : t.active = true) (pub : t.view.data.publishing = true)
    (conf : 0 < t.view.data.conf.ticks ∧ t.view.data.conf.ticks < 2 ^ 64)
    (ref : t.view.data.conf.refCh ≤ TES_JITTER_NHISTS)
    (label : eventLabel s.slot.pkt 0 = some t.view.data.curConf.refCh)
    (due : t.view.data.ticks = (t.view.data.curConf.ticks + 1) % 2 ^ 64)
    (hsame : SameQueue (applyAll (singleItems (s :: ss)) t.view.data).prepNext t₁.view.data)
    (hticks : t₁.view.data.ticks = 1)
    (h₂ : Runs.run jitterStep ((s :: ss).map .packet) t = some t₂) :
    SameState t₁.view.data t₂.view.data ↔
      Leftless t.view.data (ss.map fun s => eventOf s.slot.pkt 0) := by
  obtain ⟨t', ht, hrest⟩ := Runs.run_cons h₂
  have hss : PeakSingles ss := fun s hs => hsingles s (List.mem_cons_of_mem _ hs)
  obtain ⟨hpeak, hone⟩ := hsingles s List.mem_cons_self
  obtain ⟨active', pub', hpos'⟩ := peak_pos hpeak hone active pub (Or.inr label) ht
  obtain ⟨hcounts, -⟩ := event_cases s.slot.pkt 0 t.view.data
  have htracks := tracks_ref label
  obtain ⟨-, hcases⟩ := peak_step hpeak active pub ht
  rw [peakItems_single hone] at hcases
  rcases hcases with ⟨-, hother, -⟩ | ⟨-, ⟨hno, -⟩ | ⟨-, hfirst, hone'⟩⟩
  · exact absurd label hother
  · exact absurd due hno
  have hcur : t'.view.data.curConf = t.view.data.conf := by
    rw [hfirst.curConf, prepNext_curConf, ← hcounts.conf]
    rfl
  obtain ⟨hsame', hticks', -⟩ := singles_run hss active' pub' hpos'
    (by rw [hone', hcur]; exact one_ne_due conf) hrest
  obtain ⟨hevents, htimed⟩ := events_singleItems ss
  have hleft := sameLive_iff_leftless htracks (hcounts.publishing.trans pub)
    (by rw [hcounts.conf]; exact ref) hevents
    (by
      rw [htimed, List.forall_mem_map]
      intro s' hs'
      rw [eventOf_eq (hss s' hs').1]
      exact Option.some_ne_none _)
    (by rw [htimed, List.length_map]; exact few)
  rw [htimed, leftless_congr hcounts.conf hcounts.curConf] at hleft
  refine Iff.trans ?_ hleft
  exact sameState_iff hsame ((sameQueue_applyAll _ hfirst).trans hsame')
    (hticks'.trans (hone'.trans hticks.symm))

/-- A task that is not active ignores the frames. -/
theorem run_packets_idle (active : t.active = false) (calls : List Call) :
    Runs.run jitterStep (calls.map .packet) t = some t := by
  induction calls with
  | nil => rfl
  | cons call calls ih =>
    rw [List.map_cons, Runs.run, jitterStep, if_neg (by simp [active])]
    exact ih

/-- The events of the frame come one to a single frame, and the first of them is the same. -/
theorem Singles.first (split : Singles frame singles) : ∃ s ss, singles = s :: ss ∧
    ss.length < 2 ^ 16 ∧ eventOf s.slot.pkt 0 = eventOf frame.slot.pkt 0 := by
  obtain ⟨-, -, -, -, hnums⟩ := split.peakFrame.spec
  have hlen := split.length
  have hlt : frame.slot.pkt.eventNums < 2 ^ 16 := Tespkt.eventNums_lt
  have hevents := split.events
  obtain ⟨n, hn⟩ := Nat.exists_eq_succ_of_ne_zero (Nat.ne_of_gt hnums)
  cases singles with
  | nil =>
    rw [hn] at hlen
    cases hlen
  | cons s ss =>
    unfold frameEvents at hevents
    rw [hn, List.range_succ_eq_map, List.map_cons, List.map_cons] at hevents
    rw [List.length_cons] at hlen
    exact ⟨s, ss, rfl, by omega, (List.cons.inj hevents).1⟩

/-- Both ways of putting the events into the queue are one. -/
theorem Singles.applied (split : Singles frame singles) (d : JitterData) :
    SameQueue (applyAll (peakItems frame.slot.pkt) d) (applyAll (singleItems singles) d) := by
  apply applyAll_congr
  rw [timed_singleItems, timed_peakItems, ← split.events, List.map_map]
  rfl

/-- For a task that publishes, packing makes no difference just if the events pack well. -/
theorem packing_of_publishing (split : Singles frame singles) (heads : HeadsInv t)
    (inv : NotDueInv t) (active : t.active = true) (pub : t.view.data.publishing = true)
    (h₁ : jitterStep (.packet frame) t = some t₁)
    (h₂ : Runs.run jitterStep (singles.map .packet) t = some t₂) :
    SameState t₁.view.data t₂.view.data ↔ PacksWell t.view.data (frameEvents frame.slot.pkt) := by
  have hsingles : PeakSingles singles := fun s hs => ⟨split.peakFrames hs, split.single s hs⟩
  have hcongr := split.applied t.view.data
  obtain ⟨s, ss, rfl, few, hfirst⟩ := split.first
  have hlabel : eventLabel s.slot.pkt 0 = eventLabel frame.slot.pkt 0 :=
    congrArg Event.label hfirst
  rw [← split.events]
  obtain ⟨-, hstep⟩ := peak_step split.peakFrame active pub h₁
  rcases hstep with ⟨hzero, hother, hsame, hticks⟩ | ⟨href, hstep⟩
  · apply packing_wait hsingles rfl active pub hzero ?_ hsame hticks h₂
    rintro e ⟨⟩ hno
    exact hother (hlabel.symm.trans hno)
  have href' : 0 < t.view.data.curNpts ∨ ∃ s' ss', s :: ss = s' :: ss' ∧
      eventLabel s'.slot.pkt 0 = some t.view.data.curConf.refCh := by
    rcases href with hpos | href
    · exact Or.inl hpos
    · exact Or.inr ⟨s, ss, rfl, hlabel.trans href⟩
  rcases hstep with ⟨hnot, hsame, hticks⟩ | ⟨hdueNow, hsame, hticks⟩
  · obtain ⟨hsame₂, hticks₂⟩ := packing_run hsingles active pub href' hnot h₂
    have hstate := (sameState_iff hsame hsame₂ (hticks₂.trans hticks.symm)).2
      (sameLive_of_sameQueue hcongr)
    refine ⟨fun _ => Or.inr ?_, fun _ => hstate⟩
    rcases href with hpos | href
    · exact Or.inl hpos
    · exact Or.inr (Or.inr ⟨_, _, rfl, hlabel.trans href, fun hdue => absurd hdue hnot⟩)
  · have hpos : ¬ 0 < t.view.data.curNpts := fun hpos => inv.notDue active hpos hdueNow
    have hlabel' := hlabel.trans (href.resolve_left hpos)
    have hleft := packing_due hsingles few active pub inv.conf heads.conf hlabel' hdueNow
      (hcongr.symm.prepNext.trans hsame) hticks h₂
    refine hleft.trans ⟨fun left => Or.inr (Or.inr (Or.inr ⟨_, _, rfl, hlabel',
      fun _ => left⟩)), fun packs => ?_⟩
    rcases packs with hno | hno | hnone | ⟨first, rest, heq, -, hleft⟩
    · exact Bool.noConfusion (pub.symm.trans hno)
    · exact absurd hno hpos
    · exact absurd hlabel' (hnone _ List.mem_cons_self)
    · rw [(List.cons.inj heq).2]
      exact hleft hdueNow

/-- It makes no difference whether the events of a frame come in one frame or in a frame each, if
and only if they pack well. -/
theorem packing_iff (sends : ℕ → Bool) (evs : List JitterEvent) (t t₁ t₂ : JitterTask)
    (reached : Runs.run jitterStep evs (jitterStart sends) = some t) (frame : Call)
    (singles : List Call) (split : Singles frame singles)
    (h₁ : jitterStep (.packet frame) t = some t₁)
    (h₂ : Runs.run jitterStep (singles.map .packet) t = some t₂) :
    SameState t₁.view.data t₂.view.data ↔
      (t.active = true → PacksWell t.view.data (frameEvents frame.slot.pkt)) := by
  have heads : HeadsInv (jitterStart sends) :=
    ⟨Nat.zero_le _, fun active => Bool.noConfusion active⟩
  have due : NotDueInv (jitterStart sends) :=
    ⟨⟨(by decide : 0 < 5), (by decide : 5 < 2 ^ 64)⟩, fun active => Bool.noConfusion active⟩
  have hheads := Runs.invariant headsInv_step heads reached
  have hdue := Runs.invariant notDueInv_step due reached
  cases active : t.active with
  | false =>
    rw [jitterStep, if_neg (by simp [active])] at h₁
    obtain rfl := Option.some.inj h₁
    obtain rfl := Option.some.inj ((run_packets_idle active singles).symm.trans h₂)
    exact ⟨fun _ h => Bool.noConfusion h,
      fun _ => ⟨sameLive_of_sameQueue (sameQueue_refl _), rfl⟩⟩
  | true =>
    refine Iff.trans ?_ ⟨fun h _ => h, fun h => h rfl⟩
    cases pub : t.view.data.publishing with
    | false =>
      have hsingles : PeakSingles singles := fun s hs => ⟨split.peakFrames hs, split.single s hs⟩
      obtain ⟨hsame₁, hticks₁⟩ := peak_idle split.peakFrame pub h₁
      obtain ⟨hsame₂, hticks₂⟩ := singles_idle hsingles pub h₂
      have hstate := (sameState_iff hsame₁ hsame₂ (hticks₂.trans hticks₁.symm)).2
        (sameLive_of_sameQueue (sameQueue_refl _))
      exact ⟨fun _ => Or.inl pub, fun _ => hstate⟩
    | true => exact packing_of_publishing split hheads hdue active pub h₁ h₂

end Step

/-- A peak of channel 1 and one of channel 0. -/
def jitterPeaks : Slot :=
  .sample 40 0xB5 40 0 0 1 0 [0, 0, 0, 0, 1, 0, 2, 0, 0, 0, 0, 0, 0, 0, 3]

/-- The same in two frames. -/
def jitterSingles : List Call := [⟨jitterPeak 1 2, 0⟩, ⟨jitterPeak 0 3, 0⟩]

theorem singles_jitterPeaks : Singles ⟨jitterPeaks, 0⟩ jitterSingles := by
  refine ⟨by decide, Or.inl (by decide), by decide, ?_, ?_, ?_, ?_⟩
  · rw [jitterSingles, List.forall_mem_cons, List.forall_mem_singleton]
    decide
  · rw [jitterSingles, List.forall_mem_cons, List.forall_mem_singleton]
    decide
  · rw [jitterSingles, List.forall_mem_cons, List.forall_mem_singleton]
    decide
  · rintro (_ | _ | e) h
    · rfl
    · rfl
    · exact absurd h (by simp [jitterSingles])

/-- A task that has had its first tick. -/
def awake : List JitterEvent := [.activate, .packet ⟨jitterTick, 0⟩]

/-- A reference event comes before the frame. -/
theorem packing_iff_two : ∃ t t₁ t₂,
    Runs.run jitterStep (awake ++ [.packet ⟨jitterPeak 0 3, 0⟩]) (jitterStart fun _ => true) =
      some t ∧ jitterStep (.packet ⟨jitterPeaks, 0⟩) t = some t₁ ∧
    Runs.run jitterStep (jitterSingles.map .packet) t = some t₂ ∧
    SameState t₁.view.data t₂.view.data := by
  obtain ⟨t, hreached, hsome₁, hsome₂, hnpts⟩ : ∃ t,
      Runs.run jitterStep (awake ++ [.packet ⟨jitterPeak 0 3, 0⟩]) (jitterStart fun _ => true) =
        some t ∧ (jitterStep (.packet ⟨jitterPeaks, 0⟩) t).isSome = true ∧
      (Runs.run jitterStep (jitterSingles.map .packet) t).isSome = true ∧
      t.view.data.curNpts = 1 := ⟨_, rfl, rfl, rfl, rfl⟩
  obtain ⟨t₁, h₁⟩ := Option.isSome_iff_exists.1 hsome₁
  obtain ⟨t₂, h₂⟩ := Option.isSome_iff_exists.1 hsome₂
  refine ⟨t, t₁, t₂, hreached, h₁, h₂, ?_⟩
  apply (packing_iff (fun _ => true) _ t t₁ t₂ hreached _ _ singles_jitterPeaks h₁ h₂).2
  intro _
  exact Or.inr (Or.inl (by rw [hnpts]; exact Nat.one_pos))

/-- The first reference event is the second event of its frame. -/
theorem not_packing :
    ¬ ∀ (evs : List JitterEvent) (t t₁ t₂ : JitterTask) (frame : Call) (singles : List Call),
      Runs.run jitterStep evs (jitterStart fun _ => true) = some t → Singles frame singles →
      jitterStep (.packet frame) t = some t₁ →
      Runs.run jitterStep (singles.map .packet) t = some t₂ →
      SameState t₁.view.data t₂.view.data := by
  intro h
  obtain ⟨t, t₁, t₂, hreached, h₁, h₂, hnpts₁, hnpts₂⟩ : ∃ t t₁ t₂,
      Runs.run jitterStep awake (jitterStart fun _ => true) = some t ∧
      jitterStep (.packet ⟨jitterPeaks, 0⟩) t = some t₁ ∧
      Runs.run jitterStep (jitterSingles.map .packet) t = some t₂ ∧
      t₁.view.data.curNpts = 0 ∧ t₂.view.data.curNpts = 1 := ⟨_, _, _, rfl, rfl, rfl, rfl, rfl⟩
  have hsame := (h awake t t₁ t₂ _ _ hreached singles_jitterPeaks h₁ h₂).curNpts
  rw [hnpts₁, hnpts₂] at hsame
  exact absurd hsame (by decide)

end Tesd
