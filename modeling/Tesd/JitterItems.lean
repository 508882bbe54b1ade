import Tesd.JitterChannels
import Tesd.JitterQueue

/-!
# The jitter task, event by event

What `task_jitter_pkt_hn` does to the points and the histograms is what one gets from the events of
the frames that it processes, one by one, and from the publications in between.  The frames that the
events come in do not show.
-/

namespace Tesd

open DelayQueue (Event Queue Point)

/-- An event that is processed, or a histogram that is published. -/
inductive JitterItem
  | event (pkt : Tespkt) (e : ℕ)
  | publication

namespace JitterItem

def apply : JitterItem → JitterData → JitterData
  | event pkt e, d => (d.event pkt e).2
  | publication, d => d.prepNext

/-- One item after the other. -/
def applyAll (items : List JitterItem) (d : JitterData) : JitterData :=
  items.foldl (fun d i => i.apply d) d

/-- The channel of an event that is not a tick. -/
def channel : JitterItem → Option ℕ
  | event pkt e => eventLabel pkt e
  | publication => none

def isPublication : JitterItem → Bool
  | event _ _ => false
  | publication => true

/-- The event with its delay. -/
def timed : JitterItem → Option (Event ℕ)
  | event pkt e => some (eventOf pkt e)
  | publication => none

/-- What an event that is not of the reference channel, or a publication, does to the points. -/
def queue : JitterItem → Queue ℕ → Queue ℕ
  | event pkt e, q => DelayQueue.step OPEN_POINTS UINT16_MAX (eventOf pkt e) q
  | publication, q => ⟨[], q.since⟩

/-- The delays of all these events. -/
def delays (items : List JitterItem) : ℕ := DelayQueue.total (items.filterMap timed)

end JitterItem

open JitterItem

/-- The events of a frame that are processed, and the publication after them: nothing is processed
while the first reference event is waited for. -/
def frameItems (call : Call) (d : JitterData) : List JitterItem :=
  let d := d.await call.slot.pkt
  if d.takes call.slot.pkt call.slot.err then
    match (d.countTick call.slot.pkt).events call.slot.pkt call.slot.pkt.eventNums 0 with
    | (false, _) => []
    | (true, d') => (List.range' 0 call.slot.pkt.eventNums).map (event call.slot.pkt) ++
        if d'.ticks = (d'.curConf.ticks + 1) % 2 ^ 64 then [publication] else []
  else []

/-- What the task processes in a step. -/
def jitterItems (e : JitterEvent) (t : JitterTask) : List JitterItem :=
  match e with
  | .packet call => if t.active then frameItems call t.view.data else []
  | .request _ _ => []
  | .activate => []
  | .deactivate => []

section Apply

variable {d d' : JitterData} {items : List JitterItem} {q : Queue ℕ}

theorem applyAll_cons (i : JitterItem) (items : List JitterItem) (d : JitterData) :
    applyAll (i :: items) d = applyAll items (i.apply d) := rfl

theorem applyAll_append (items items' : List JitterItem) (d : JitterData) :
    applyAll (items ++ items') d = applyAll items' (applyAll items d) := List.foldl_append

theorem applyAll_concat (items : List JitterItem) (i : JitterItem) (d : JitterData) :
    applyAll (items ++ [i]) d = i.apply (applyAll items d) := applyAll_append items [i] d

open JitterData

theorem sameQueue_apply (i : JitterItem) (h : SameQueue d d') :
    SameQueue (i.apply d) (i.apply d') := by
  cases i with
  | event pkt e => exact (h.event pkt e).2
  | publication => exact h.prepNext

theorem sameQueue_applyAll (items : List JitterItem) (h : SameQueue d d') :
    SameQueue (applyAll items d) (applyAll items d') := by
  induction items generalizing d d' with
  | nil => exact h
  | cons i items ih => exact ih (sameQueue_apply i h)

/-- What no item changes but a publication, which sets the configuration. -/
theorem apply_conf (i : JitterItem) (d : JitterData) :
    (i.apply d).conf = d.conf ∧ (i.apply d).publishing = d.publishing ∧
      (d.conf = d.curConf → (i.apply d).curConf = d.curConf) := by
  cases i with
  | event pkt e =>
    obtain ⟨hsame, -⟩ := event_cases pkt e d
    exact ⟨hsame.conf, hsame.publishing, fun _ => hsame.curConf⟩
  | publication =>
    unfold JitterItem.apply prepNext
    dsimp only
    split_ifs <;> exact ⟨rfl, rfl, id⟩

theorem applyAll_conf (items : List JitterItem) (d : JitterData) :
    (applyAll items d).conf = d.conf ∧ (applyAll items d).publishing = d.publishing ∧
      (d.conf = d.curConf → (applyAll items d).curConf = d.curConf) := by
  induction items generalizing d with
  | nil => exact ⟨rfl, rfl, fun _ => rfl⟩
  | cons i items ih =>
    obtain ⟨hconf, hpub, hcur⟩ := apply_conf i d
    obtain ⟨hconf', hpub', hcur'⟩ := ih (i.apply d)
    refine ⟨hconf'.trans hconf, hpub'.trans hpub, fun hfixed => ?_⟩
    have hstep := hcur hfixed
    exact (hcur' (hconf.trans (hfixed.trans hstep.symm))).trans hstep

/-! ## A frame -/

/-- The first tick has come, or it does not come now. -/
theorem await_eq {pkt : Tespkt} (h : d.publishing = true ∨ pkt.isTick = false) :
    ∃ c c', d.await pkt = (d.dbgAssert c).dbgAssert c' := by
  refine ⟨decide (d.curConf.ticks > 0), decide (d.curNpts < MAX_SIMULT_POINTS), ?_⟩
  unfold await
  dsimp only
  rw [if_neg (by
    rcases h with h | h
    · simp [dbgAssert, h]
    · simp [h])]
  rfl

/-- All events of a frame are processed, or none. -/
theorem events_items (pkt : Tespkt) (n e : ℕ) (d : JitterData) :
    ((d.events pkt n e).1 = true ∧
        (d.events pkt n e).2 = applyAll ((List.range' e n).map (event pkt)) d ∧
        (0 < n → 0 < d.curNpts ∨ eventLabel pkt e = some d.curConf.refCh)) ∨
      ((d.events pkt n e).1 = false ∧ d.curNpts = 0 ∧
        eventLabel pkt e ≠ some d.curConf.refCh ∧ ∃ c, (d.events pkt n e).2 = d.dbgAssert c) := by
  induction n generalizing e d with
  | zero => exact Or.inl ⟨rfl, rfl, fun h => absurd h (Nat.lt_irrefl 0)⟩
  | succ n ih =>
    obtain ⟨-, hcases⟩ := event_cases pkt e d
    rw [events]
    rcases hev : d.event pkt e with ⟨go, d₁⟩
    rw [hev] at hcases
    dsimp only at hcases
    rcases hcases with ⟨rfl, hzero⟩ | ⟨rfl, hpos⟩
    · right
      have hother : eventLabel pkt e ≠ some d.curConf.refCh := by
        intro href
        obtain ⟨c, c', heq⟩ := event_isRef href
        cases hev.symm.trans heq
      obtain ⟨c, heq⟩ := event_wait hzero hother
      exact ⟨rfl, hzero, hother, c, congrArg Prod.snd (hev.symm.trans heq)⟩
    · left
      rcases ih (e + 1) d₁ with ⟨hgo, heq, -⟩ | ⟨-, hzero, -⟩
      · refine ⟨hgo, heq.trans ?_, fun _ => ?_⟩
        · rw [List.range'_succ, List.map_cons, applyAll_cons, JitterItem.apply, hev]
        · by_contra hno
          rw [not_or] at hno
          obtain ⟨c, hwait⟩ := event_wait (Nat.eq_zero_of_not_pos hno.1) hno.2
          cases hev.symm.trans hwait
      · exact absurd hzero (Nat.ne_of_gt hpos)

/-- A point is under way after the events of a frame. -/
theorem events_pos (pkt : Tespkt) (e : ℕ) {n : ℕ} (pos : 0 < n)
    (h : (d.events pkt n e).1 = true) : 0 < (d.events pkt n e).2.curNpts := by
  obtain ⟨m, rfl⟩ := Nat.exists_eq_succ_of_ne_zero (Nat.ne_of_gt pos)
  obtain ⟨-, hcases⟩ := event_cases pkt e d
  rw [events] at h ⊢
  rcases hev : d.event pkt e with ⟨go, d₁⟩
  rw [hev] at hcases h
  dsimp only at hcases h
  rcases hcases with ⟨rfl, -⟩ | ⟨rfl, hpos⟩
  · cases h
  · exact (events_spec pkt m (e + 1) d₁).2.2 hpos

/-- The frames whose events are looked at have events. -/
theorem eventNums_of_takes {call : Call} (h : d.takes call.slot.pkt call.slot.err = true) :
    d.publishing = true ∧ 0 < call.slot.pkt.eventNums := by
  unfold takes at h
  simp only [Bool.and_eq_true, Bool.not_eq_true', Bool.or_eq_false_iff, Bool.not_eq_false',
    bne_eq_false_iff_eq, Bool.and_eq_false_iff] at h
  obtain ⟨⟨⟨hpub, herr⟩, hev⟩, hfirst⟩ := h
  refine ⟨hpub, Tespkt.eventNums_pos (Slot.valid_of_err herr).1 hev fun htrace => ?_⟩
  rcases hfirst with hno | hheader
  · cases htrace.symm.trans hno
  · exact hheader

/-- What the handler does to the points and the histograms. -/
theorem handle_items (call : Call) (v : View JitterData)
    (ok : (v.handle taskJitterPktHn call).1 ≠ .error) :
    SameQueue (applyAll (frameItems call v.data) (v.data.await call.slot.pkt))
      (v.handle taskJitterPktHn call).2 := by
  unfold View.handle taskJitterPktHn at ok ⊢
  unfold frameItems
  dsimp only at ok ⊢
  generalize v.data.await call.slot.pkt = d at ok ⊢
  cases htakes : d.takes call.slot.pkt call.slot.err with
  | false => exact sameQueue_refl d
  | true =>
    rw [htakes] at ok
    simp only [Bool.not_true, Bool.false_eq_true, if_false, if_true] at ok ⊢
    have hcount : SameQueue d (d.countTick call.slot.pkt) := by
      unfold countTick
      split_ifs
      · exact ⟨rfl, rfl, rfl, rfl, rfl, rfl, rfl⟩
      · exact sameQueue_refl d
    have hitems := events_items call.slot.pkt call.slot.pkt.eventNums 0
      (d.countTick call.slot.pkt)
    rcases hev : (d.countTick call.slot.pkt).events call.slot.pkt call.slot.pkt.eventNums 0 with
      ⟨go, d'⟩
    rw [hev] at hitems ok
    dsimp only at hitems ok
    rcases hitems with ⟨rfl, rfl, -⟩ | ⟨rfl, -, -, c, rfl⟩
    · -- the events are processed
      dsimp only at ok ⊢
      rw [applyAll_append]
      have hevents := sameQueue_applyAll
        ((List.range' 0 call.slot.pkt.eventNums).map (event call.slot.pkt)) hcount
      refine (sameQueue_applyAll _ hevents).trans ?_
      generalize applyAll ((List.range' 0 call.slot.pkt.eventNums).map (event call.slot.pkt))
        (d.countTick call.slot.pkt) = d' at ok ⊢
      unfold publish at ok ⊢
      by_cases hdue : d'.ticks = (d'.curConf.ticks + 1) % 2 ^ 64
      · rw [if_pos hdue] at ok
        rw [if_pos hdue, if_pos hdue]
        generalize d'.sock.send d'.hist.encode = sent at ok ⊢
        rcases sent with ⟨sent, sock⟩
        cases sent with
        | false => exact absurd rfl ok
        | true =>
          have hsock : SameQueue d' { d' with sock := sock } :=
            ⟨rfl, rfl, rfl, rfl, rfl, rfl, rfl⟩
          exact hsock.prepNext.trans (sameQueue_dbgAssert _ _)
      · rw [if_neg hdue, if_neg hdue]
        exact sameQueue_dbgAssert _ _
    · exact hcount.trans (sameQueue_dbgAssert c _)

/-! ## The points between two reference events -/

/-- An item that is no reference event is a step of the queue. -/
theorem tracks_apply (i : JitterItem) (h : JitterData.Tracks d q) (pub : d.publishing = true)
    (other : i.channel ≠ some d.curConf.refCh) :
    JitterData.Tracks (i.apply d) (i.queue q) ∧ (i.apply d).added = d.added ∧
      (i.isPublication = false → (i.apply d).hist = d.hist) := by
  cases i with
  | event pkt e =>
    obtain ⟨hhist, hadded⟩ := event_keeps other
    exact ⟨event_other h other, hadded, fun _ => hhist⟩
  | publication =>
    obtain ⟨htracks, hadded⟩ := prepNext_spec h pub
    exact ⟨htracks, hadded, fun hno => Bool.noConfusion hno⟩

/-- The queue after items that are no reference events. -/
def queueAfter (items : List JitterItem) (q : Queue ℕ) : Queue ℕ :=
  items.foldl (fun q i => i.queue q) q

theorem queueAfter_append (items items' : List JitterItem) (q : Queue ℕ) :
    queueAfter (items ++ items') q = queueAfter items' (queueAfter items q) := List.foldl_append

/-- The histograms after a publication. -/
theorem prepNext_hist (d : JitterData) : d.prepNext.hist =
    ⟨d.conf.refCh, TES_JITTER_NHISTS, fun h =>
      if 0 ≤ h ∧ h < TES_JITTER_NHISTS then
        ⟨(histChannels d.conf.refCh TES_JITTER_NHISTS 0).getD h.toNat 0, fun _ => 0⟩
      else d.hist.hists h⟩ := by
  unfold prepNext
  dsimp only
  split_ifs <;> rfl

theorem prepNext_curConf (d : JitterData) : d.prepNext.curConf = d.conf := by
  unfold prepNext
  dsimp only
  split_ifs <;> rfl

/-- A publication leaves the same histograms, whatever has been counted before. -/
theorem prepNext_hist_eq (hconf : d'.conf = d.conf)
    (hhist : d'.hist = d.hist ∨ d'.hist = d.prepNext.hist) : d'.prepNext.hist = d.prepNext.hist := by
  rw [prepNext_hist, prepNext_hist, hconf]
  rcases hhist with hhist | hhist
  · rw [hhist]
  · rw [hhist, prepNext_hist]
    congr 1
    funext h
    dsimp only
    split_ifs <;> rfl

/-- Items that are no reference events, with the configuration left as it is: the queue runs, and
nothing is counted. -/
theorem tracks_applyAll (h : JitterData.Tracks d q) (pub : d.publishing = true)
    (fixed : d.conf = d.curConf)
    (other : ∀ i ∈ items, i.channel ≠ some d.curConf.refCh) :
    JitterData.Tracks (applyAll items d) (queueAfter items q) ∧ (applyAll items d).added = d.added ∧
      (applyAll items d).hist = if items.any isPublication then d.prepNext.hist else d.hist := by
  induction items using List.reverseRecOn with
  | nil => exact ⟨h, rfl, rfl⟩
  | append_singleton items i ih =>
    obtain ⟨htracks, hadded, hhist⟩ := ih fun i hi => other i (List.mem_append_left _ hi)
    obtain ⟨hconf, hpub, hcur⟩ := applyAll_conf items d
    have hother : i.channel ≠ some (applyAll items d).curConf.refCh := by
      rw [hcur fixed]
      exact other i List.mem_concat_self
    obtain ⟨hstep, hadded', hhist'⟩ := tracks_apply i htracks (hpub.trans pub) hother
    rw [applyAll_concat, queueAfter_append]
    refine ⟨hstep, hadded'.trans hadded, ?_⟩
    cases i with
    | event pkt e =>
      rw [hhist' rfl, hhist]
      simp only [List.any_append, List.any_cons, isPublication, List.any_nil, Bool.or_false]
    | publication =>
      rw [if_pos (by simp [isPublication])]
      apply prepNext_hist_eq hconf
      rw [hhist]
      split_ifs
      · exact Or.inr rfl
      · exact Or.inl rfl

end Apply

end Tesd
