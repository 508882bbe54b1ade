import Tesd.JitterBatch

/-!
# The reference channel of a jitter histogram

The delays of a counted point are since and until an event of the channel that the header of its
histogram names.  A publication can take over another reference channel while the last point has
the delay since an event of the one before.
-/

namespace Tesd

open DelayQueue (Event Queue Point)

/-- What the task has done since it was started. -/
inductive JitterPast
  /-- an event has been processed, with this reference channel in the header of the histogram, and
  these points have been counted -/
  | event (pkt : Tespkt) (e : ℕ) (refCh : ℕ) (entries : List AddedPoint)
  | publication
  | wakeup

namespace JitterPast

/-- The channel of an event that is not a tick. -/
def channel : JitterPast → Option ℕ
  | event pkt e _ _ => eventLabel pkt e
  | publication => none
  | wakeup => none

/-- An event has been processed as a reference event. -/
def IsRef : JitterPast → Prop
  | event pkt e refCh _ => eventLabel pkt e = some refCh
  | publication => False
  | wakeup => False

def item : JitterPast → Option JitterItem
  | event pkt e _ _ => some (.event pkt e)
  | publication => some .publication
  | wakeup => none

/-- The items of a part of the past. -/
def items (past : List JitterPast) : List JitterItem := past.filterMap item

/-- The delays of the events of a part of the past. -/
def delays (past : List JitterPast) : ℕ := JitterItem.delays (items past)

end JitterPast

open JitterPast (items)

/-- A point counted at event `e` of a frame is of an event of its channel, and its bin is computed
from the delays since the last event of the reference channel before it and until the next one. -/
def Counted (past : List JitterPast) (pkt : Tespkt) (e refCh : ℕ) (a : AddedPoint) : Prop :=
  ∃ before ref mid ev after, past = before ++ ref :: (mid ++ ev :: after) ∧
    ref.channel = some refCh ∧ eventLabel pkt e = some refCh ∧
    (∀ x ∈ mid ++ ev :: after, x.channel ≠ some refCh ∧ x ≠ .wakeup) ∧ ev.channel = some a.ch ∧
    a.bin = delayBin (min (JitterPast.delays (mid ++ [ev])) UINT16_MAX)
      (min (JitterPast.delays after + pkt.eventToff e) UINT16_MAX)

/-- The points that have been counted in published histograms have been computed from events of the
channel in the header. -/
def Consistent (past : List JitterPast) : Prop :=
  ∀ before pkt e refCh entries mid after,
    past = before ++ .event pkt e refCh entries :: (mid ++ .publication :: after) →
    JitterPast.wakeup ∉ mid → ∀ a ∈ entries, Counted before pkt e refCh a

/-- What these items do, as the past of what comes later. -/
def pastOf : List JitterItem → JitterData → List JitterPast
  | [], _ => []
  | .event pkt e :: items, d =>
    .event pkt e d.hist.refCh ((d.event pkt e).2.added.drop d.added.length) ::
      pastOf items (d.event pkt e).2
  | .publication :: items, d => .publication :: pastOf items d.prepNext

/-- What a step adds to the past. -/
def jitterPast (e : JitterEvent) (t : JitterTask) : List JitterPast :=
  match e with
  | .packet call =>
    if t.active then
      pastOf (frameItems call t.view.data) (t.view.data.await call.slot.pkt)
    else []
  | .request _ _ => []
  | .activate => [.wakeup]
  | .deactivate => []

/-- The last reference event was of this channel, and no event of the channel has come since. -/
def SameReference (past : List JitterPast) (refCh : ℕ) : Prop :=
  ∀ before ref mid, past = before ++ ref :: mid → ref.IsRef → (∀ x ∈ mid, ¬ x.IsRef) →
    ref.channel = some refCh ∧ ∀ x ∈ mid, x.channel ≠ some refCh

/-- Points are counted only at events of the channel of the reference event before. -/
def CountsSame (past : List JitterPast) (e : JitterEvent) (t : JitterTask) : Prop :=
  match e with
  | .packet call => t.active = true → ∀ pre pkt i post,
    frameItems call t.view.data = pre ++ JitterItem.event pkt i :: post →
    let before := t.view.data.await call.slot.pkt
    let d := JitterItem.applyAll pre before
    eventLabel pkt i = some d.curConf.refCh → 1 < d.curNpts →
    SameReference (past ++ pastOf pre before) d.curConf.refCh
  | .request _ _ => True
  | .activate => True
  | .deactivate => True

open JitterData

section Counts

variable {d d' : JitterData} {past mid : List JitterPast} {pkt : Tespkt} {e : ℕ}

/-- A part of the past, split at its last publication. -/
theorem exists_split (mid : List JitterPast) : ∃ early late, mid = early ++ late ∧
    (early = [] ∨ ∃ earlier, early = earlier ++ [.publication]) ∧ .publication ∉ late := by
  induction mid using List.reverseRecOn with
  | nil => exact ⟨[], [], rfl, Or.inl rfl, List.not_mem_nil⟩
  | append_singleton mid x ih =>
    obtain ⟨early, late, rfl, hearly, hlate⟩ := ih
    by_cases hx : x = .publication
    · subst hx
      exact ⟨early ++ late ++ [.publication], [], (List.append_nil _).symm, Or.inr ⟨_, rfl⟩,
        List.not_mem_nil⟩
    · refine ⟨early, late ++ [x], List.append_assoc _ _ _, hearly, ?_⟩
      rw [List.mem_append, List.mem_singleton]
      exact not_or.2 ⟨hlate, Ne.symm hx⟩

theorem items_append (past past' : List JitterPast) :
    items (past ++ past') = items past ++ items past' := List.filterMap_append

/-- The points that are counted at a reference event. -/
theorem counted_of_tracks {before : List JitterPast} {ref : JitterPast} {a : AddedPoint}
    (tracks : JitterData.Tracks d (queueAfter (items mid) ⟨[], 0⟩))
    (label : eventLabel pkt e = some d.curConf.refCh)
    (channel : ref.channel = some d.curConf.refCh)
    (quiet : ∀ x ∈ mid, x.channel ≠ some d.curConf.refCh ∧ x ≠ .wakeup)
    (h : a ∈ (d.event pkt e).2.added.drop d.added.length) :
    Counted (before ++ ref :: mid) pkt e d.curConf.refCh a := by
  obtain ⟨early, late, rfl, hearly, hlate⟩ := exists_split mid
  have hlate' : (items late).any JitterItem.isPublication = false := by
    rw [List.any_eq_false]
    intro i hi hpub
    obtain ⟨x, hx, hitem⟩ := List.mem_filterMap.1 hi
    cases x with
    | event pkt e refCh entries =>
      obtain rfl := Option.some.inj hitem
      cases hpub
    | publication => exact hlate hx
    | wakeup => cases hitem
  have hearly' : items early = [] ∨ ∃ earlier, items early = earlier ++ [.publication] := by
    rcases hearly with rfl | ⟨earlier, rfl⟩
    · exact Or.inl rfl
    · exact Or.inr ⟨items earlier, items_append _ _⟩
  rw [(event_ref tracks label).2, List.drop_left, items_append,
    later_queueAfter _ hearly' hlate'] at h
  obtain ⟨p, hp, rfl⟩ := List.mem_map.1 h
  obtain ⟨es, ev, l, es', hes, hlabel, rfl⟩ := DelayQueue.mem_batch (List.mem_of_mem_take hp)
  unfold JitterPast.items at hes
  rw [List.filterMap_filterMap] at hes
  obtain ⟨mid, rest, rfl, hmid, hrest⟩ := List.filterMap_eq_append_iff.1 hes
  obtain ⟨skip, x, after, rfl, hskip, hx, hafter⟩ := List.filterMap_eq_cons_iff.1 hrest
  have htimed : ∀ past : List JitterPast, JitterPast.delays past =
      DelayQueue.total (past.filterMap fun x => x.item.bind JitterItem.timed) := by
    intro past
    unfold JitterPast.delays JitterItem.delays JitterPast.items
    rw [List.filterMap_filterMap]
  have hskip' : skip.filterMap (fun x => x.item.bind JitterItem.timed) = [] :=
    List.filterMap_eq_nil_iff.2 hskip
  refine ⟨before, ref, early ++ (mid ++ skip), x, after, ?_, channel, label, ?_, ?_, ?_⟩
  · simp only [List.append_assoc]
  · intro y hy
    apply quiet y
    simpa only [List.append_assoc] using hy
  · cases x with
    | event pkt' e' refCh entries =>
      obtain rfl := Option.some.inj hx
      exact hlabel
    | publication => cases hx
    | wakeup => cases hx
  · have hx' : [x].filterMap (fun x => x.item.bind JitterItem.timed) = [ev] :=
      List.filterMap_cons_some hx
    have hsince : JitterItem.delays (items early) + DelayQueue.total es + ev.delay =
        JitterPast.delays (early ++ (mid ++ skip) ++ [x]) := by
      show JitterPast.delays early + _ + _ = _
      rw [htimed, htimed, List.filterMap_append, List.filterMap_append, List.filterMap_append,
        hmid, hskip', hx', List.append_nil, DelayQueue.total_append, DelayQueue.total_append,
        DelayQueue.total_cons, DelayQueue.total_nil, Nat.add_zero]
    rw [hsince, htimed after, hafter]

/-- What holds of the past in every state. -/
structure PastInv (past : List JitterPast) (d : JitterData) : Prop where
  header : d.hist.refCh = d.curConf.refCh
  tracks : 0 < d.curNpts → ∃ before ref mid, past = before ++ ref :: mid ∧ ref.IsRef ∧
    (∀ x ∈ mid, ¬ x.IsRef ∧ x ≠ .wakeup) ∧ JitterData.Tracks d (queueAfter (items mid) ⟨[], 0⟩)

/-- Every point so far has been counted by the events of the channel in the header. -/
def AllCounted (past : List JitterPast) : Prop :=
  ∀ before pkt e refCh entries after, past = before ++ .event pkt e refCh entries :: after →
    ∀ a ∈ entries, Counted before pkt e refCh a

theorem allCounted_concat {x : JitterPast} (h : AllCounted past)
    (last : ∀ pkt e refCh entries, x = .event pkt e refCh entries →
      ∀ a ∈ entries, Counted past pkt e refCh a) : AllCounted (past ++ [x]) := by
  intro before pkt e refCh entries after heq a ha
  rcases List.eq_nil_or_concat after with rfl | ⟨after, y, rfl⟩
  · obtain ⟨rfl, hx⟩ := List.append_inj' heq rfl
    exact last pkt e refCh entries (List.singleton_inj.1 hx) a ha
  · rw [List.concat_eq_append, ← List.cons_append, ← List.append_assoc] at heq
    exact h before pkt e refCh entries after (List.append_inj' heq rfl).1 a ha

/-- An event that is processed. -/
theorem pastInv_event (inv : PastInv past d)
    (same : eventLabel pkt e = some d.curConf.refCh → 1 < d.curNpts →
      SameReference past d.curConf.refCh) :
    PastInv (past ++ [.event pkt e d.hist.refCh ((d.event pkt e).2.added.drop d.added.length)])
        (d.event pkt e).2 ∧
      ∀ a ∈ (d.event pkt e).2.added.drop d.added.length, Counted past pkt e d.hist.refCh a := by
  obtain ⟨hsame, hcases⟩ := event_cases pkt e d
  obtain ⟨bins, hhist⟩ := event_counted pkt e d
  have hheader : (d.event pkt e).2.hist.refCh = (d.event pkt e).2.curConf.refCh := by
    rw [hhist, hsame.curConf]
    exact inv.header
  by_cases href : eventLabel pkt e = some d.curConf.refCh
  · have htracks := tracks_ref href
    have hisRef : (JitterPast.event pkt e d.hist.refCh
        ((d.event pkt e).2.added.drop d.added.length)).IsRef := by
      rw [inv.header]
      exact href
    refine ⟨⟨hheader, fun _ => ⟨past, _, [], rfl, hisRef, fun x hx => ?_, htracks⟩⟩, ?_⟩
    · cases hx
    · intro a ha
      have hpos : 0 < d.curNpts := by
        by_contra hzero
        rw [(event_first (by omega) href).2, List.drop_length] at ha
        cases ha
      obtain ⟨before, ref, mid, rfl, hisRef, hmid, htracks⟩ := inv.tracks hpos
      have hopen : 1 < d.curNpts := by
        by_contra hone
        have hnpts := htracks.npts
        have hnil : (queueAfter (items mid) ⟨[], 0⟩).opens = [] :=
          List.length_eq_zero_iff.1 (by omega)
        rw [(event_ref htracks href).2, List.drop_left, hnil] at ha
        cases ha
      obtain ⟨hchannel, hquiet⟩ := same href hopen before ref mid rfl hisRef
        fun x hx => (hmid x hx).1
      rw [inv.header]
      exact counted_of_tracks htracks href hchannel
        (fun x hx => ⟨hquiet x hx, (hmid x hx).2⟩) ha
  · have hnone : (d.event pkt e).2.added.drop d.added.length = [] := by
      rw [(event_keeps href).2]
      exact List.drop_length
    rw [hnone]
    refine ⟨⟨hheader, ?_⟩, fun a ha => absurd ha List.not_mem_nil⟩
    · intro hpos
      have hpos' : 0 < d.curNpts := by
        by_contra hzero
        obtain ⟨c, heq⟩ := event_wait (by omega) href
        rw [heq] at hpos
        exact hzero hpos
      obtain ⟨before, ref, mid, rfl, hisRef, hmid, htracks⟩ := inv.tracks hpos'
      refine ⟨before, ref, mid ++ [_], List.append_assoc _ _ _, hisRef, ?_, ?_⟩
      · intro x hx
        rcases List.mem_append.1 hx with hx | hx
        · exact hmid x hx
        · obtain rfl := List.mem_singleton.1 hx
          refine ⟨?_, JitterPast.noConfusion⟩
          rw [inv.header]
          exact href
      · rw [items_append, queueAfter_append]
        exact event_other htracks href

/-- A publication when points are under way. -/
theorem pastInv_publication (inv : PastInv past d) (pub : d.publishing = true)
    (pos : 0 < d.curNpts) : PastInv (past ++ [.publication]) d.prepNext := by
  obtain ⟨before, ref, mid, rfl, hisRef, hmid, htracks⟩ := inv.tracks pos
  refine ⟨?_, fun _ => ⟨before, ref, mid ++ [.publication], List.append_assoc _ _ _, hisRef, ?_,
    ?_⟩⟩
  · rw [prepNext_hist, prepNext_curConf]
  · intro x hx
    rcases List.mem_append.1 hx with hx | hx
    · exact hmid x hx
    · obtain rfl := List.mem_singleton.1 hx
      exact ⟨id, JitterPast.noConfusion⟩
  · rw [items_append, queueAfter_append]
    exact (prepNext_spec htracks pub).1

/-- What a frame does. -/
theorem pastInv_items (items : List JitterItem) (inv : PastInv past d) (all : AllCounted past)
    (pub : d.publishing = true)
    (same : ∀ pre pkt e post, items = pre ++ JitterItem.event pkt e :: post →
      eventLabel pkt e = some (JitterItem.applyAll pre d).curConf.refCh →
      1 < (JitterItem.applyAll pre d).curNpts →
      SameReference (past ++ pastOf pre d) (JitterItem.applyAll pre d).curConf.refCh)
    (under : ∀ pre post, items = pre ++ JitterItem.publication :: post →
      0 < (JitterItem.applyAll pre d).curNpts) :
    PastInv (past ++ pastOf items d) (JitterItem.applyAll items d) ∧
      AllCounted (past ++ pastOf items d) := by
  induction items generalizing past d with
  | nil =>
    unfold pastOf
    rw [List.append_nil]
    exact ⟨inv, all⟩
  | cons i items ih =>
    cases i with
    | event pkt e =>
      have hfirst := same [] pkt e items rfl
      rw [pastOf, List.append_nil] at hfirst
      obtain ⟨inv', hcounted⟩ := pastInv_event inv hfirst
      have all' := allCounted_concat (x := .event pkt e d.hist.refCh
        ((d.event pkt e).2.added.drop d.added.length)) all
        (by rintro _ _ _ _ ⟨⟩; exact hcounted)
      have pub' := (event_cases pkt e d).1.publishing.trans pub
      have hrest := ih inv' all' pub'
        (fun pre pkt' e' post heq hlabel hopen => by
          have hlater := same (.event pkt e :: pre) pkt' e' post (by rw [heq]; rfl) hlabel hopen
          rw [List.append_assoc]
          exact hlater)
        (fun pre post heq => under (.event pkt e :: pre) post (by rw [heq]; rfl))
      rw [List.append_assoc] at hrest
      exact hrest
    | publication =>
      have inv' := pastInv_publication inv pub (under [] items rfl)
      have all' := allCounted_concat (x := .publication) all (by rintro _ _ _ _ ⟨⟩)
      have pub' := (apply_conf .publication d).2.1.trans pub
      have hrest := ih inv' all' pub'
        (fun pre pkt' e' post heq hlabel hopen => by
          have hlater := same (.publication :: pre) pkt' e' post (by rw [heq]; rfl) hlabel hopen
          rw [List.append_assoc]
          exact hlater)
        (fun pre post heq => under (.publication :: pre) post (by rw [heq]; rfl))
      rw [List.append_assoc] at hrest
      exact hrest

end Counts

section Step

variable {t t' : JitterTask} {past : List JitterPast} {call : Call}

theorem sameQueue_pastInv {d d' : JitterData} (h : SameQueue d d') (inv : PastInv past d) :
    PastInv past d' := by
  refine ⟨?_, fun hpos => ?_⟩
  · rw [h.hist, h.curConf]
    exact inv.header
  · rw [h.curNpts] at hpos
    obtain ⟨before, ref, mid, heq, hisRef, hmid, htracks⟩ := inv.tracks hpos
    exact ⟨before, ref, mid, heq, hisRef, hmid, h.tracks htracks⟩

/-- The frames whose events are processed are taken, and a publication comes after an event. -/
theorem frameItems_spec (call : Call) (d : JitterData) (h : frameItems call d ≠ []) :
    (d.await call.slot.pkt).publishing = true ∧
      ∀ pre post, frameItems call d = pre ++ JitterItem.publication :: post →
        0 < (JitterItem.applyAll pre (d.await call.slot.pkt)).curNpts := by
  unfold frameItems at h ⊢
  dsimp only at h ⊢
  generalize d.await call.slot.pkt = d at h ⊢
  cases htakes : d.takes call.slot.pkt call.slot.err with
  | false =>
    rw [htakes] at h
    exact absurd rfl h
  | true =>
    obtain ⟨hpub, hnums⟩ := eventNums_of_takes htakes
    refine ⟨hpub, fun pre post heq => ?_⟩
    have hcount : SameQueue d (d.countTick call.slot.pkt) := by
      unfold countTick
      split_ifs
      · exact ⟨rfl, rfl, rfl, rfl, rfl, rfl, rfl⟩
      · exact sameQueue_refl d
    have hitems := events_items call.slot.pkt call.slot.pkt.eventNums 0
      (d.countTick call.slot.pkt)
    have hpos : ((d.countTick call.slot.pkt).events _ _ 0).1 = true → _ :=
      events_pos call.slot.pkt 0 hnums
    rcases hev : (d.countTick call.slot.pkt).events call.slot.pkt call.slot.pkt.eventNums 0 with
      ⟨go, d'⟩
    rw [hev] at hitems heq hpos
    dsimp only at hitems heq hpos
    rcases hitems with ⟨rfl, rfl, -⟩ | ⟨rfl, -, -⟩
    · have hevents : JitterItem.publication ∉
          (List.range' 0 call.slot.pkt.eventNums).map (JitterItem.event call.slot.pkt) := by
        intro hmem
        obtain ⟨_, -, hno⟩ := List.mem_map.1 hmem
        cases hno
      have hpre : pre = (List.range' 0 call.slot.pkt.eventNums).map
          (JitterItem.event call.slot.pkt) := by
        rcases List.append_eq_append_iff.1 heq with ⟨more, hpre, hlast⟩ | ⟨more, hevs, hrest⟩
        · split_ifs at hlast
          · cases more with
            | nil => rw [hpre, List.append_nil]
            | cons i more => cases more <;> cases hlast
          · cases more <;> cases hlast
        · cases more with
          | nil => rw [hevs, List.append_nil]
          | cons i more =>
            obtain ⟨rfl, -⟩ := List.cons.inj hrest
            rw [hevs] at hevents
            exact absurd (List.mem_append_right _ List.mem_cons_self) hevents
      rw [hpre, (sameQueue_applyAll _ hcount).symm.curNpts]
      exact hpos rfl
    · cases pre <;> cases heq

/-- What holds in every state. -/
structure ReferenceInv (past : List JitterPast) (t : JitterTask) : Prop where
  all : AllCounted past
  inv : t.active = true → PastInv past t.view.data

theorem referenceInv_step (past : List JitterPast) (e : JitterEvent) (t t' : JitterTask)
    (inv : ReferenceInv past t) (same : CountsSame past e t) (h : jitterStep e t = some t') :
    ReferenceInv (past ++ jitterPast e t) t' := by
  cases e with
  | packet call =>
    unfold jitterPast
    dsimp only
    cases active : t.active with
    | false =>
      rw [jitterStep, if_neg (by simp [active])] at h
      obtain rfl := Option.some.inj h
      rw [if_neg Bool.false_ne_true, List.append_nil]
      exact inv
    | true =>
      obtain ⟨-, hdata, hok⟩ := jitterStep_handle active h
      have hsame := handle_items call t.view hok
      have hawait : PastInv past (t.view.data.await call.slot.pkt) := by
        obtain ⟨hheader, htracks⟩ := inv.inv active
        unfold await
        dsimp only
        split_ifs
        · exact ⟨hheader, fun hpos => by
            obtain ⟨before, ref, mid, heq, hisRef, hmid, htracks⟩ := htracks hpos
            exact ⟨before, ref, mid, heq, hisRef, hmid, htracks.1, htracks.2, htracks.3,
              htracks.4, htracks.5⟩⟩
        · exact sameQueue_pastInv ((sameQueue_dbgAssert _ _).trans (sameQueue_dbgAssert _ _))
            ⟨hheader, htracks⟩
      rw [if_pos rfl]
      by_cases hitems : frameItems call t.view.data = []
      · rw [hitems] at hsame ⊢
        rw [pastOf, List.append_nil]
        refine ⟨inv.all, fun _ => ?_⟩
        rw [hdata]
        exact sameQueue_pastInv hsame hawait
      · obtain ⟨hpub, hunder⟩ := frameItems_spec call t.view.data hitems
        obtain ⟨hinv, hall⟩ := pastInv_items _ hawait inv.all hpub (same active) hunder
        refine ⟨hall, fun _ => ?_⟩
        rw [hdata]
        exact sameQueue_pastInv hsame hinv
  | request refCh ticks =>
    obtain rfl := Option.some.inj h
    unfold jitterPast
    rw [List.append_nil]
    refine ⟨inv.all, fun active => ?_⟩
    obtain ⟨hheader, htracks⟩ := inv.inv active
    dsimp only
    unfold taskJitterReqHn
    dsimp only
    split_ifs
    · exact ⟨hheader, htracks⟩
    · exact ⟨hheader, fun hpos => by
        obtain ⟨before, ref, mid, heq, hisRef, hmid, htracks⟩ := htracks hpos
        exact ⟨before, ref, mid, heq, hisRef, hmid, htracks.1, htracks.2, htracks.3,
          htracks.4, htracks.5⟩⟩
  | activate =>
    obtain rfl := Option.some.inj h
    refine ⟨allCounted_concat inv.all (by rintro _ _ _ _ ⟨⟩), fun _ => ⟨rfl, fun hpos => ?_⟩⟩
    exact absurd hpos (Nat.lt_irrefl 0)
  | deactivate =>
    obtain rfl := Option.some.inj h
    unfold jitterPast
    rw [List.append_nil]
    exact ⟨inv.all, fun active => Bool.noConfusion active⟩

end Step

/-- In every run in which points are counted only at events of the channel of the reference event
before, the published histograms have been computed from events of the channel in their header. -/
theorem consistent_of_same (sends : ℕ → Bool) (evs : List JitterEvent) (t : JitterTask)
    (same : Runs.AlongHistory jitterStep jitterPast CountsSame [] evs (jitterStart sends))
    (h : Runs.run jitterStep evs (jitterStart sends) = some t) :
    Consistent (Runs.collect jitterStep jitterPast evs (jitterStart sends)) := by
  have start : ReferenceInv [] (jitterStart sends) :=
    ⟨fun before _ _ _ _ _ heq => absurd heq (by simp), fun active => Bool.noConfusion active⟩
  have inv := Runs.history_of_alongHistory referenceInv_step start same h
  rw [List.nil_append] at inv
  intro before pkt e refCh entries mid after heq _
  exact inv.all before pkt e refCh entries _ heq

/-- A point of channel 1 between two events of the reference channel, and a publication. -/
def publishedPoint : List JitterEvent :=
  [.request 0 1, .activate, .packet ⟨jitterTick, 0⟩, .packet ⟨jitterPeak 0 3, 0⟩,
    .packet ⟨jitterPeak 1 2, 0⟩, .packet ⟨jitterPeak 0 5, 0⟩, .packet ⟨jitterTick, 0⟩]

theorem consistent_of_same_point : ∃ t,
    Runs.run jitterStep publishedPoint (jitterStart fun _ => true) = some t ∧ t.published = 1 ∧
      t.view.data.added.map AddedPoint.bin = [513] ∧
      Consistent (Runs.collect jitterStep jitterPast publishedPoint (jitterStart fun _ => true)) := by
  obtain ⟨t, hrun, hpub, hadded⟩ : ∃ t,
      Runs.run jitterStep publishedPoint (jitterStart fun _ => true) = some t ∧ t.published = 1 ∧
      t.view.data.added.map AddedPoint.bin = [513] := ⟨_, rfl, rfl, rfl⟩
  refine ⟨t, hrun, hpub, hadded, ?_⟩
  apply consistent_of_same (fun _ => true) publishedPoint t _ hrun
  have hnone : ∀ (pre : List JitterItem) (i : JitterItem) (post : List JitterItem),
      [] = pre ++ i :: post → False := by
    intro pre i post heq
    cases pre <;> cases heq
  have hone : ∀ (i : JitterItem) (pre : List JitterItem) (i' : JitterItem)
      (post : List JitterItem), [i] = pre ++ i' :: post → pre = [] ∧ i' = i := by
    intro i pre i' post heq
    cases pre with
    | nil => exact ⟨rfl, (List.cons.inj heq).1.symm⟩
    | cons j pre => cases pre <;> cases (List.cons.inj heq).2
  refine ⟨trivial, fun t₁ h₁ => ⟨trivial, fun t₂ h₂ => ?_⟩⟩
  obtain rfl := Option.some.inj h₁
  obtain rfl := Option.some.inj h₂
  refine ⟨fun _ pre pkt i post heq => (hnone pre _ post heq).elim, fun t₃ h₃ => ?_⟩
  obtain rfl := Option.some.inj h₃
  refine ⟨fun _ pre pkt i post heq => ?_, fun t₄ h₄ => ?_⟩
  · obtain ⟨rfl, -⟩ := hone _ pre _ post heq
    exact fun _ hopen => absurd hopen (by decide)
  obtain rfl := Option.some.inj h₄
  refine ⟨fun _ pre pkt i post heq => ?_, fun t₅ h₅ => ?_⟩
  · obtain ⟨rfl, -⟩ := hone _ pre _ post heq
    exact fun _ hopen => absurd hopen (by decide)
  obtain rfl := Option.some.inj h₅
  refine ⟨fun _ pre pkt i post heq => ?_, fun t₆ h₆ => ?_⟩
  · obtain ⟨rfl, -⟩ := hone _ pre _ post heq
    intro before d hlabel hopen before' ref mid hsplit href hmid
    rcases before' with _ | ⟨_, _ | ⟨_, _ | ⟨_, before'⟩⟩⟩
    · obtain ⟨rfl, rfl⟩ := List.cons.inj hsplit
      exact href.elim
    · obtain ⟨-, hsplit⟩ := List.cons.inj hsplit
      obtain ⟨rfl, rfl⟩ := List.cons.inj hsplit
      refine ⟨rfl, fun x hx => ?_⟩
      obtain rfl := List.mem_singleton.1 hx
      decide
    · obtain ⟨-, hsplit⟩ := List.cons.inj hsplit
      obtain ⟨-, hsplit⟩ := List.cons.inj hsplit
      obtain ⟨rfl, rfl⟩ := List.cons.inj hsplit
      have hno : some 1 = some 0 := href
      cases hno
    · obtain ⟨-, hsplit⟩ := List.cons.inj hsplit
      obtain ⟨-, hsplit⟩ := List.cons.inj hsplit
      obtain ⟨-, hsplit⟩ := List.cons.inj hsplit
      cases before' <;> cases hsplit
  obtain rfl := Option.some.inj h₆
  refine ⟨fun _ pre pkt i post heq => ?_, fun _ _ => trivial⟩
  have hlast : [JitterItem.event jitterTick.pkt 0, JitterItem.publication] =
      pre ++ JitterItem.event pkt i :: post := heq
  rcases pre with _ | ⟨_, pre⟩
  · obtain ⟨hevent, -⟩ := List.cons.inj hlast
    obtain ⟨rfl, rfl⟩ := JitterItem.event.inj hevent
    intro before d hlabel
    cases hlabel
  · obtain ⟨-, hrest⟩ := List.cons.inj hlast
    obtain ⟨-, hno⟩ := hone _ pre _ post hrest
    cases hno

/-- The reference channel is 1 instead of 0 from a publication on, and an event of channel 0 comes
before the first one of channel 1. -/
def takenOver : List JitterEvent :=
  [.request 0 1, .activate, .packet ⟨jitterTick, 0⟩, .packet ⟨jitterPeak 0 3, 0⟩, .request 1 1,
    .packet ⟨jitterTick, 0⟩, .packet ⟨jitterPeak 0 4, 0⟩, .packet ⟨jitterPeak 1 5, 0⟩,
    .packet ⟨jitterTick, 0⟩]

theorem not_consistent :
    ¬ ∀ (evs : List JitterEvent) (t : JitterTask),
      Runs.run jitterStep evs (jitterStart fun _ => true) = some t →
      Consistent (Runs.collect jitterStep jitterPast evs (jitterStart fun _ => true)) := by
  intro h
  obtain ⟨t, hrun⟩ : ∃ t, Runs.run jitterStep takenOver (jitterStart fun _ => true) = some t :=
    ⟨_, rfl⟩
  have hpast : Runs.collect jitterStep jitterPast takenOver (jitterStart fun _ => true) =
      [.wakeup, .event (jitterPeak 0 3).pkt 0 0 [], .event jitterTick.pkt 0 0 [], .publication,
        .event (jitterPeak 0 4).pkt 0 1 [], .event (jitterPeak 1 5).pkt 0 1 [⟨0, 515, 0, 0⟩],
        .event jitterTick.pkt 0 1 [], .publication] := rfl
  obtain ⟨before, ref, mid, ev, after, heq, href, -⟩ := h takenOver t hrun
    [.wakeup, .event (jitterPeak 0 3).pkt 0 0 [], .event jitterTick.pkt 0 0 [], .publication,
      .event (jitterPeak 0 4).pkt 0 1 []] (jitterPeak 1 5).pkt 0 1 [⟨0, 515, 0, 0⟩]
    [.event jitterTick.pkt 0 1 []] [] hpast (by simp) ⟨0, 515, 0, 0⟩ List.mem_cons_self
  have hmem : ref ∈ before ++ ref :: (mid ++ ev :: after) :=
    List.mem_append_right _ List.mem_cons_self
  rw [← heq] at hmem
  simp only [List.mem_cons, List.not_mem_nil, or_false] at hmem
  rcases hmem with rfl | rfl | rfl | rfl | rfl <;> exact absurd href (by decide)

end Tesd
