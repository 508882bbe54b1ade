import Tesd.JitterItems

/-!
# The jitter histogram of a stream of events

Between two reference events the task keeps a queue of delays, cut off at 16 bits.  What it counts
at the second one can be said without the queue: each of the first events in between is in the bin
of the smaller one of its delays, since the reference event before it and until the one after it.
-/

namespace Tesd

open DelayQueue (Event Queue Point)
open JitterItem

/-- The points that are counted when a reference event comes `delay` after `after`, and `before` has
come between the reference event before it and `after`. -/
def batchPoints (delay : ℕ) (before after : List JitterItem) : List (Point ℕ) :=
  (DelayQueue.batch UINT16_MAX delay (delays before) (after.filterMap timed)).take OPEN_POINTS

/-- The headers are those of the configuration. -/
structure JitterData.Heads (d : JitterData) : Prop where
  ref : d.curConf.refCh ≤ TES_JITTER_NHISTS
  heads : ∀ h : ℕ, h < TES_JITTER_NHISTS → (d.hist.hists h).ch = subChannel d.curConf.refCh h

/-- What the task counts at an event of the reference channel, from the state `d` after the
reference event before it on. -/
structure CountsBatch (d : JitterData) (before after : List JitterItem) (pkt : Tespkt) (e : ℕ) :
    Prop where
  /-- nothing is counted before, and what is published has none of the points -/
  quiet : ∀ items, items <+: before ++ after → (applyAll items d).hist =
    if items.any isPublication then d.prepNext.hist else d.hist
  /-- each point is counted once -/
  counted : (applyAll (before ++ after ++ [event pkt e]) d).hist =
    (applyAll (before ++ after) d).hist.counted
      ((batchPoints (pkt.eventToff e) before after).map (pointBin d.curConf.refCh))
  /-- in the histogram of its channel -/
  channel : ∀ p ∈ batchPoints (pkt.eventToff e) before after, ∃ h : ℕ, h < TES_JITTER_NHISTS ∧
    hidOf d.curConf.refCh p.label = h ∧
    ((applyAll (before ++ after) d).hist.hists h).ch = p.label

open JitterData

section Items

variable {d : JitterData} {q : Queue ℕ} {items before after : List JitterItem}

/-- The delay since the reference event goes on over publications. -/
theorem queueAfter_since (items : List JitterItem) :
    (queueAfter items ⟨[], 0⟩).since = min (delays items) UINT16_MAX := by
  induction items using List.reverseRecOn with
  | nil => rfl
  | append_singleton items i ih =>
    rw [queueAfter_append]
    cases i with
    | event pkt e =>
      have hstep := DelayQueue.since_step OPEN_POINTS UINT16_MAX (eventOf pkt e)
        (queueAfter items ⟨[], 0⟩)
      rw [ih, DelayQueue.min_add_min] at hstep
      refine hstep.trans ?_
      rw [delays, delays, List.filterMap_append, DelayQueue.total_append]
      rfl
    | publication =>
      refine ih.trans ?_
      rw [delays, delays, List.filterMap_append, DelayQueue.total_append]
      rfl

/-- No points are left after a publication. -/
theorem queueAfter_opens (h : items = [] ∨ ∃ earlier, items = earlier ++ [publication]) :
    (queueAfter items ⟨[], 0⟩).opens = [] := by
  rcases h with rfl | ⟨earlier, rfl⟩
  · rfl
  · rw [queueAfter_append]
    rfl

/-- Without a publication the queue takes the events one by one. -/
theorem queueAfter_events (h : items.any isPublication = false) (q : Queue ℕ) :
    queueAfter items q = DelayQueue.run OPEN_POINTS UINT16_MAX (items.filterMap timed) q := by
  induction items generalizing q with
  | nil => rfl
  | cons i items ih =>
    rw [List.any_cons, Bool.or_eq_false_iff] at h
    cases i with
    | event pkt e => exact ih h.2 _
    | publication => cases h.1

/-- The points that are left before the second reference event. -/
theorem later_queueAfter (delay : ℕ)
    (hbefore : before = [] ∨ ∃ earlier, before = earlier ++ [publication])
    (hafter : after.any isPublication = false) :
    DelayQueue.later UINT16_MAX delay (queueAfter (before ++ after) ⟨[], 0⟩).opens =
      batchPoints delay before after := by
  have hq : queueAfter before ⟨[], 0⟩ = ⟨[], min (delays before) UINT16_MAX⟩ := by
    have hopens := queueAfter_opens hbefore
    have hsince := queueAfter_since before
    generalize queueAfter before ⟨[], 0⟩ = q at hopens hsince ⊢
    rw [← hopens, ← hsince]
  rw [queueAfter_append, queueAfter_events hafter, hq, DelayQueue.later_run]
  rfl

/-- The channels of the points are those of the events. -/
theorem label_batchPoints {delay : ℕ} {p : Point ℕ} (h : p ∈ batchPoints delay before after) :
    ∃ i ∈ after, i.channel = some p.label := by
  obtain ⟨es, e, l, es', hes, hlabel, rfl⟩ := DelayQueue.mem_batch (List.mem_of_mem_take h)
  have hmem : e ∈ after.filterMap timed := by
    rw [hes]
    simp
  obtain ⟨i, hi, htimed⟩ := List.mem_filterMap.1 hmem
  refine ⟨i, hi, ?_⟩
  cases i with
  | event pkt e =>
    obtain rfl := Option.some.inj htimed
    exact hlabel
  | publication => cases htimed

theorem heads_apply (i : JitterItem) (conf : d.conf.refCh ≤ TES_JITTER_NHISTS) (h : Heads d) :
    Heads (i.apply d) := by
  cases i with
  | event pkt e =>
    obtain ⟨hsame, -⟩ := event_cases pkt e d
    refine ⟨?_, fun k hk => ?_⟩
    · exact hsame.curConf ▸ h.ref
    · obtain ⟨bins, hhist⟩ := event_counted pkt e d
      rw [JitterItem.apply, hsame.curConf, hhist]
      exact h.heads k hk
  | publication =>
    have hcur := prepNext_curConf d
    refine ⟨?_, fun k hk => ?_⟩
    · exact hcur ▸ conf
    · rw [JitterItem.apply, hcur]
      exact prepNext_heads conf k hk

theorem heads_applyAll (items : List JitterItem) (conf : d.conf.refCh ≤ TES_JITTER_NHISTS)
    (h : Heads d) : Heads (applyAll items d) := by
  induction items generalizing d with
  | nil => exact h
  | cons i items ih =>
    apply ih
    · rw [(apply_conf i d).1]
      exact conf
    · exact heads_apply i conf h

end Items

section Run

variable {t t' : JitterTask} {d : JitterData}

/-- What holds of the headers in every state. -/
structure HeadsInv (t : JitterTask) : Prop where
  conf : t.view.data.conf.refCh ≤ TES_JITTER_NHISTS
  heads : t.active = true → t.view.data.Heads

theorem heads_sameQueue {d d' : JitterData} (h : SameQueue d d') (heads : Heads d) : Heads d' := by
  refine ⟨?_, fun k hk => ?_⟩
  · rw [h.curConf]
    exact heads.ref
  · rw [h.curConf, h.hist]
    exact heads.heads k hk

theorem jitterStep_handle {call : Call} (active : t.active = true)
    (h : jitterStep (.packet call) t = some t') :
    t'.active = true ∧ t'.view.data = (t.view.handle taskJitterPktHn call).2 ∧
      (t.view.handle taskJitterPktHn call).1 ≠ .error := by
  rw [jitterStep, if_pos active] at h
  split_ifs at h with hok
  obtain rfl := Option.some.inj h
  exact ⟨active, rfl, hok⟩

theorem headsInv_step (e : JitterEvent) (t t' : JitterTask) (inv : HeadsInv t)
    (h : jitterStep e t = some t') : HeadsInv t' := by
  cases e with
  | packet call =>
    cases active : t.active with
    | false =>
      rw [jitterStep, if_neg (by simp [active])] at h
      obtain rfl := Option.some.inj h
      exact inv
    | true =>
      obtain ⟨-, hdata, hok⟩ := jitterStep_handle active h
      have hsame := handle_items call t.view hok
      obtain ⟨-, hconf, hcur, -, -, -⟩ := await_spec call.slot.pkt t.view.data
      have hawait : Heads (t.view.data.await call.slot.pkt) := by
        obtain ⟨href, hheads⟩ := inv.heads active
        unfold await
        dsimp only
        split_ifs <;> exact ⟨href, hheads⟩
      have hconf' : (t.view.data.await call.slot.pkt).conf.refCh ≤ TES_JITTER_NHISTS := by
        rw [hconf]
        exact inv.conf
      refine ⟨?_, fun _ => ?_⟩
      · rw [hdata, hsame.conf, (applyAll_conf _ _).1]
        exact hconf'
      · rw [hdata]
        exact heads_sameQueue hsame (heads_applyAll _ hconf' hawait)
  | request refCh ticks =>
    obtain rfl := Option.some.inj h
    refine ⟨refCh_request refCh ticks inv.conf, fun active => ?_⟩
    obtain ⟨href, hheads⟩ := inv.heads active
    dsimp only
    unfold taskJitterReqHn
    dsimp only
    split_ifs <;> exact ⟨href, hheads⟩
  | activate =>
    obtain rfl := Option.some.inj h
    refine ⟨inv.conf, fun _ => ⟨inv.conf, fun k hk => ?_⟩⟩
    exact prepNext_heads (d := { t.view.data with
      points := fun _ => ⟨0, 0, 0, 0⟩, publishing := false, curNpts := 0 }) inv.conf k hk
  | deactivate =>
    obtain rfl := Option.some.inj h
    exact ⟨inv.conf, fun active => Bool.noConfusion active⟩

/-- What the task does with frames, in terms of the events of these. -/
theorem run_items {calls : List Call} (active : t.active = true)
    (pub : t.view.data.publishing = true)
    (h : Runs.run jitterStep (calls.map .packet) t = some t') :
    SameQueue (applyAll (Runs.collect jitterStep jitterItems (calls.map .packet) t) t.view.data)
      t'.view.data := by
  induction calls generalizing t with
  | nil =>
    obtain rfl := Option.some.inj h
    exact sameQueue_refl _
  | cons call calls ih =>
    obtain ⟨t₁, ht, hrest⟩ := Runs.run_cons h
    obtain ⟨active₁, hdata, hok⟩ := jitterStep_handle active ht
    have hawait : SameQueue t.view.data (t.view.data.await call.slot.pkt) := by
      obtain ⟨c, c', heq⟩ : ∃ c c', t.view.data.await call.slot.pkt = _ := await_eq (Or.inl pub)
      rw [heq]
      exact (sameQueue_dbgAssert _ _).trans (sameQueue_dbgAssert _ _)
    have hframe : SameQueue (applyAll (frameItems call t.view.data) t.view.data) t₁.view.data := by
      rw [hdata]
      exact (sameQueue_applyAll _ hawait).trans (handle_items call t.view hok)
    have pub₁ : t₁.view.data.publishing = true := by
      rw [hframe.publishing, (applyAll_conf _ _).2.1]
      exact pub
    rw [List.map_cons, Runs.collect_cons ht, applyAll_append]
    have hitems : jitterItems (.packet call) t = frameItems call t.view.data := by
      unfold jitterItems
      dsimp only
      rw [if_pos active]
    rw [hitems]
    exact (sameQueue_applyAll _ hframe).trans (ih active₁ pub₁ hrest)

end Run

/-- Between two reference events the task counts what the batch definition says, in every run from
a state in which the first tick has come and no new configuration is waiting. -/
theorem counts_batch (sends : ℕ → Bool) (evs : List JitterEvent) (t t' : JitterTask)
    (reached : Runs.run jitterStep evs (jitterStart sends) = some t) (active : t.active = true)
    (pub : t.view.data.publishing = true) (fixed : t.view.data.conf = t.view.data.curConf)
    (calls : List Call) (h : Runs.run jitterStep (calls.map .packet) t = some t')
    (pre before after post : List JitterItem) (pkt pkt' : Tespkt) (e e' : ℕ)
    (items : Runs.collect jitterStep jitterItems (calls.map .packet) t =
      pre ++ JitterItem.event pkt e :: (before ++ after ++ JitterItem.event pkt' e' :: post))
    (ref : eventLabel pkt e = some t.view.data.curConf.refCh)
    (ref' : eventLabel pkt' e' = some t.view.data.curConf.refCh)
    (hbefore : before = [] ∨ ∃ earlier, before = earlier ++ [publication])
    (hafter : after.any isPublication = false)
    (known : ∀ i ∈ before ++ after, ∀ ch, i.channel = some ch →
      ch ≠ t.view.data.curConf.refCh ∧ ch < TES_NCHANNELS) :
    let d := applyAll (pre ++ [JitterItem.event pkt e]) t.view.data
    (d.curNpts = 1 ∧ (d.points 0).delaySince = 0 ∧ (d.points 0).delayUntil = 0) ∧
      CountsBatch d before after pkt' e' ∧
      SameQueue (applyAll (before ++ after ++ JitterItem.event pkt' e' :: post) d) t'.view.data := by
  intro d
  have start : HeadsInv (jitterStart sends) :=
    ⟨Nat.zero_le _, fun active => Bool.noConfusion active⟩
  have inv := Runs.invariant headsInv_step start reached
  have hrun := run_items active pub h
  obtain ⟨hconf, hpub, hcur⟩ := applyAll_conf (pre ++ [JitterItem.event pkt e]) t.view.data
  have hcur := hcur fixed
  have hfixed : d.conf = d.curConf := hconf.trans (fixed.trans hcur.symm)
  have htracks : JitterData.Tracks d ⟨[], 0⟩ := by
    show JitterData.Tracks (applyAll (pre ++ [JitterItem.event pkt e]) t.view.data) _
    rw [applyAll_concat]
    apply tracks_ref
    rw [ref, (applyAll_conf pre t.view.data).2.2 fixed]
  have hother : ∀ i ∈ before ++ after, i.channel ≠ some d.curConf.refCh := by
    intro i hi hch
    exact (known i hi _ hch).1 (congrArg JitterConf.refCh hcur)
  obtain ⟨htracks', -, -⟩ := tracks_applyAll htracks (hpub.trans pub) hfixed hother
  obtain ⟨hconf', -, hcur'⟩ := applyAll_conf (before ++ after) d
  have hheads : Heads (applyAll (before ++ after) d) := by
    apply heads_applyAll
    · rw [hconf]
      exact inv.conf
    · exact heads_applyAll _ inv.conf (inv.heads active)
  refine ⟨⟨htracks.npts, htracks.since, htracks.till⟩, ⟨?_, ?_, ?_⟩, ?_⟩
  · intro items hitems
    exact (tracks_applyAll htracks (hpub.trans pub) hfixed
      fun i hi => hother i (hitems.subset hi)).2.2
  · rw [applyAll_concat, JitterItem.apply]
    have hlabel : eventLabel pkt' e' =
        some (applyAll (before ++ after) d).curConf.refCh := by
      rw [ref', hcur' hfixed, hcur]
    have hcount := (event_ref htracks' hlabel).1
    rw [hcount, later_queueAfter _ hbefore hafter, hcur' hfixed]
  · intro p hp
    obtain ⟨i, hi, hch⟩ := label_batchPoints hp
    obtain ⟨hne, hlt⟩ := known i (List.mem_append_right _ hi) _ hch
    have href := (inv.heads active).ref
    have hrefCh : d.curConf.refCh = t.view.data.curConf.refCh := congrArg JitterConf.refCh hcur
    unfold TES_NCHANNELS at hlt
    unfold TES_JITTER_NHISTS TES_NCHANNELS at href
    refine ⟨0, by decide, ?_, ?_⟩
    · unfold hidOf
      split_ifs <;> omega
    · rw [hheads.heads 0 (by decide), hcur' hfixed]
      unfold subChannel
      split_ifs <;> omega
  · rw [items] at hrun
    rw [List.append_cons, applyAll_append] at hrun
    exact hrun

/-- A task that publishes after each tick, up to its first tick. -/
def firstTick : List JitterEvent := [.request 0 1, .activate, .packet ⟨jitterTick, 0⟩]

/-- A point that is dropped when a histogram is published, and one that is counted. -/
def twoPoints : List Call :=
  [⟨jitterPeak 0 3, 0⟩, ⟨jitterPeak 1 2, 0⟩, ⟨jitterTick, 0⟩, ⟨jitterPeak 1 4, 0⟩,
    ⟨jitterPeak 0 5, 0⟩]

theorem counts_batch_two : ∃ t t', Runs.run jitterStep firstTick (jitterStart fun _ => true) =
    some t ∧ Runs.run jitterStep (twoPoints.map .packet) t = some t' ∧
    CountsBatch (applyAll [JitterItem.event (jitterPeak 0 3).pkt 0] t.view.data)
      [JitterItem.event (jitterPeak 1 2).pkt 0, JitterItem.event jitterTick.pkt 0, publication]
      [JitterItem.event (jitterPeak 1 4).pkt 0] (jitterPeak 0 5).pkt 0 := by
  obtain ⟨t, hreached, hsome, hactive, hpub, hfixed, hcur, hitems⟩ : ∃ t,
      Runs.run jitterStep firstTick (jitterStart fun _ => true) = some t ∧
      (Runs.run jitterStep (twoPoints.map .packet) t).isSome = true ∧ t.active = true ∧
      t.view.data.publishing = true ∧ t.view.data.conf = t.view.data.curConf ∧
      t.view.data.curConf = ⟨1, 0⟩ ∧
      Runs.collect jitterStep jitterItems (twoPoints.map .packet) t =
        [JitterItem.event (jitterPeak 0 3).pkt 0, JitterItem.event (jitterPeak 1 2).pkt 0,
          JitterItem.event jitterTick.pkt 0, publication,
          JitterItem.event (jitterPeak 1 4).pkt 0, JitterItem.event (jitterPeak 0 5).pkt 0] :=
    ⟨_, rfl, rfl, rfl, rfl, rfl, rfl, rfl⟩
  obtain ⟨t', hrun⟩ := Option.isSome_iff_exists.1 hsome
  refine ⟨t, t', hreached, hrun, ?_⟩
  have hbatch := counts_batch (fun _ => true) firstTick t t' hreached hactive hpub hfixed
    twoPoints hrun []
    [JitterItem.event (jitterPeak 1 2).pkt 0, JitterItem.event jitterTick.pkt 0, publication]
    [JitterItem.event (jitterPeak 1 4).pkt 0] [] (jitterPeak 0 3).pkt (jitterPeak 0 5).pkt 0 0
    hitems (by rw [hcur]; rfl) (by rw [hcur]; rfl)
    (Or.inr ⟨[JitterItem.event (jitterPeak 1 2).pkt 0, JitterItem.event jitterTick.pkt 0], rfl⟩)
    rfl (by
      rw [hcur]
      intro i hi ch hch
      simp only [List.cons_append, List.nil_append, List.mem_cons, List.not_mem_nil,
        or_false] at hi
      rcases hi with rfl | rfl | rfl | rfl
      · obtain rfl := Option.some.inj hch
        decide
      · cases hch
      · cases hch
      · obtain rfl := Option.some.inj hch
        decide)
  exact hbatch.2.1

end Tesd
