import Tesd.JitterTicks

/-!
# The channels of jitter histograms

The histogram of a point is computed from the channel of its event when the point is put in the
list, and used at a later reference event.  No function checks that the channel exists.
-/

namespace Tesd

/-- The channel that the header of histogram `h` has. -/
def subChannel (refCh h : ℕ) : ℕ := if h < refCh then h else h + 1

/-- The point has been added to a bin of a histogram whose header has the channel of its event. -/
structure AddedPoint.InHist (a : AddedPoint) : Prop where
  hid : 0 ≤ a.hid ∧ a.hid < TES_JITTER_NHISTS
  bin : 0 ≤ a.bin ∧ a.bin < TES_JITTER_NBINS
  ch : a.histCh = a.ch

namespace JitterData

/-- Of the `n` events of a frame from event `e` on, those that become points are of channels that
there are. -/
def KnownEvents (pkt : Tespkt) : ℕ → ℕ → JitterData → Prop
  | 0, _, _ => True
  | n + 1, e, d =>
    (pkt.isTick = false → pkt.evtFlCH e ≠ d.curConf.refCh → 0 < d.curNpts →
        d.curNpts < MAX_SIMULT_POINTS - 1 → pkt.evtFlCH e < TES_NCHANNELS) ∧
      KnownEvents pkt n (e + 1) (d.event pkt e).2

/-- What holds of the list of points and of the histograms. -/
structure ChannelsInv (d : JitterData) : Prop where
  ref : d.curConf.refCh ≤ TES_JITTER_NHISTS
  heads : ∀ h : ℕ, h < TES_JITTER_NHISTS → (d.hist.hists h).ch = subChannel d.curConf.refCh h
  queue : ∀ p < d.curNpts - 1, ∃ h : ℕ, h < TES_JITTER_NHISTS ∧ (d.points p).hid = h ∧
    (d.points p).ch = subChannel d.curConf.refCh h
  added : ∀ a ∈ d.added, a.InHist

variable {d d' : JitterData}

/-- What changes neither the histograms nor the channels of the points keeps the invariant. -/
theorem channelsInv_of_same (inv : ChannelsInv d) (cur : d'.curConf = d.curConf)
    (hist : d'.hist = d.hist) (added : d'.added = d.added) (npts : d'.curNpts = d.curNpts)
    (points : ∀ p, (d'.points p).hid = (d.points p).hid ∧ (d'.points p).ch = (d.points p).ch) :
    ChannelsInv d' := by
  refine ⟨?_, ?_, ?_, ?_⟩
  · rw [cur]
    exact inv.ref
  · rw [cur, hist]
    exact inv.heads
  · intro p hp
    rw [npts] at hp
    rw [cur, (points p).1, (points p).2]
    exact inv.queue p hp
  · rw [added]
    exact inv.added

theorem channelsInv_dbgAssert (c : Bool) (inv : ChannelsInv d) : ChannelsInv (d.dbgAssert c) :=
  ⟨inv.ref, inv.heads, inv.queue, inv.added⟩

theorem channelsInv_addToUntil (delay : ℕ) (inv : ChannelsInv d) :
    ChannelsInv (d.addToUntil delay) := by
  refine channelsInv_of_same inv rfl rfl rfl rfl fun p => ?_
  unfold addToUntil
  dsimp only
  split_ifs <;> exact ⟨rfl, rfl⟩

theorem channelsInv_addToSince (delay : ℕ) (inv : ChannelsInv d) :
    ChannelsInv (d.addToSince delay) := by
  refine channelsInv_of_same inv rfl rfl rfl rfl fun p => ?_
  unfold addToSince
  dsimp only
  by_cases hp : p = d.curNpts - 1
  · subst hp
    rw [Function.update_self]
    exact ⟨rfl, rfl⟩
  · rw [Function.update_of_ne hp]
    exact ⟨rfl, rfl⟩

/-- The points in the list are added to their histograms. -/
theorem channelsInv_savePoint (inv : ChannelsInv d) {p : ℕ} (hp : p < d.curNpts - 1) :
    ChannelsInv (d.savePoint p) ∧ (d.savePoint p).curNpts = d.curNpts := by
  obtain ⟨h, hlt, hhid, hch⟩ := inv.queue p hp
  refine ⟨⟨inv.ref, fun h' hlt' => ?_, inv.queue, fun a ha => ?_⟩, rfl⟩
  · unfold savePoint
    dsimp only [dbgAssert]
    by_cases heq : (h' : ℤ) = (d.points p).hid
    · rw [heq, Function.update_self, ← heq]
      exact inv.heads h' hlt'
    · rw [Function.update_of_ne heq]
      exact inv.heads h' hlt'
  · unfold savePoint at ha
    dsimp only [dbgAssert] at ha
    rcases List.mem_append.1 ha with ha | ha
    · exact inv.added a ha
    · obtain rfl := List.mem_singleton.1 ha
      refine ⟨?_, ?_, ?_⟩
      · dsimp only
        omega
      · dsimp only
        unfold TES_JITTER_NBINS
        split_ifs <;> omega
      · dsimp only
        rw [hhid, inv.heads h hlt, hch]

theorem channelsInv_savePoints (inv : ChannelsInv d) : ChannelsInv d.savePoints := by
  have hfold : ∀ (ps : List ℕ) (d : JitterData), ChannelsInv d → (∀ p ∈ ps, p < d.curNpts - 1) →
      ChannelsInv (ps.foldl savePoint d) := by
    intro ps
    induction ps with
    | nil => exact fun d inv _ => inv
    | cons p ps ih =>
      intro d inv hps
      obtain ⟨inv', hn⟩ := channelsInv_savePoint inv (hps p List.mem_cons_self)
      apply ih _ inv'
      intro q hq
      rw [hn]
      exact hps q (List.mem_cons_of_mem p hq)
  have hinv := hfold (List.range (d.curNpts - 1)) d inv fun p hp => List.mem_range.1 hp
  exact ⟨hinv.ref, hinv.heads, fun p hp => absurd hp (Nat.not_lt_zero p), hinv.added⟩

/-- The histogram of a channel that there is has this channel in its header. -/
theorem channelsInv_makeNew (inv : ChannelsInv d) (pos : 0 < d.curNpts) {ch : ℕ}
    (other : ch ≠ d.curConf.refCh)
    (known : d.curNpts < MAX_SIMULT_POINTS - 1 → ch < TES_NCHANNELS) :
    ChannelsInv (d.makeNew ch) := by
  unfold makeNew
  dsimp only
  by_cases hroom : (d.dbgAssert (ch != d.curConf.refCh)).curNpts < MAX_SIMULT_POINTS - 1
  · rw [if_pos hroom]
    refine ⟨inv.ref, inv.heads, fun p hp => ?_, inv.added⟩
    have hlt := known hroom
    have href := inv.ref
    unfold TES_NCHANNELS at hlt
    unfold TES_JITTER_NHISTS TES_NCHANNELS at href
    dsimp only [dbgAssert] at hp ⊢
    rw [Nat.add_sub_cancel] at hp
    rw [Function.update_of_ne (by omega)]
    by_cases hlast : p = d.curNpts - 1
    · rw [hlast, Function.update_self]
      refine ⟨0, by decide, ?_, ?_⟩
      · dsimp only
        split_ifs <;> omega
      · dsimp only
        unfold subChannel
        split_ifs <;> omega
    · rw [Function.update_of_ne hlast]
      exact inv.queue p (by omega)
  · rw [if_neg hroom]
    exact channelsInv_dbgAssert _ inv

theorem channelsInv_event (pkt : Tespkt) (e : ℕ) (inv : ChannelsInv d)
    (known : pkt.isTick = false → pkt.evtFlCH e ≠ d.curConf.refCh → 0 < d.curNpts →
      d.curNpts < MAX_SIMULT_POINTS - 1 → pkt.evtFlCH e < TES_NCHANNELS) :
    ChannelsInv (d.event pkt e).2 := by
  unfold event
  dsimp only
  generalize hd : d.dbgAssert _ = d₀
  have hcur : d₀.curConf = d.curConf := by
    rw [← hd]
    rfl
  have hn : d₀.curNpts = d.curNpts := by
    rw [← hd]
    rfl
  have inv₀ : ChannelsInv d₀ := by
    rw [← hd]
    exact channelsInv_dbgAssert _ inv
  have huntil := channelsInv_addToUntil (pkt.eventToff e) inv₀
  cases href : (pkt.evtFlCH e == d₀.curConf.refCh && !pkt.isTick) with
  | true =>
    simp only [Bool.not_true, Bool.false_and, Bool.false_eq_true, if_false, if_true]
    exact channelsInv_dbgAssert _ (channelsInv_savePoints huntil)
  | false =>
    simp only [Bool.not_false, Bool.true_and, beq_iff_eq, if_true, Bool.false_eq_true, if_false]
    have hsince := channelsInv_dbgAssert (decide (d₀.curNpts > 0))
      (channelsInv_addToSince (pkt.eventToff e) huntil)
    by_cases hzero : d₀.curNpts = 0
    · rw [if_pos hzero]
      exact inv₀
    · rw [if_neg hzero]
      have hpos : 0 < d₀.curNpts := Nat.pos_of_ne_zero hzero
      cases htick : pkt.isTick with
      | true => exact hsince
      | false =>
        rw [htick, Bool.not_false, Bool.and_true, beq_eq_false_iff_ne] at href
        apply channelsInv_makeNew hsince hpos href
        intro hroom
        exact known htick (hcur ▸ href) (hn ▸ hpos) (hn ▸ hroom)

theorem channelsInv_events (pkt : Tespkt) (n e : ℕ) (inv : ChannelsInv d)
    (known : KnownEvents pkt n e d) : ChannelsInv (d.events pkt n e).2 := by
  induction n generalizing e d with
  | zero => exact inv
  | succ n ih =>
    have hone := channelsInv_event pkt e inv known.1
    rw [events]
    have hrest := known.2
    rcases hev : d.event pkt e with ⟨go, d₁⟩
    rw [hev] at hone hrest
    cases go with
    | false => exact hone
    | true => exact ih (e + 1) hone hrest

/-- The headers of the next histogram are those of the new configuration. -/
theorem prepNext_heads (ref : d.conf.refCh ≤ TES_JITTER_NHISTS) (h : ℕ)
    (hlt : h < TES_JITTER_NHISTS) :
    (d.prepNext.hist.hists h).ch = subChannel d.conf.refCh h := by
  have hheads : (histChannels d.conf.refCh TES_JITTER_NHISTS 0).getD h 0 =
      subChannel d.conf.refCh h := by
    unfold TES_JITTER_NHISTS TES_NCHANNELS at hlt ref
    obtain rfl : h = 0 := by omega
    have hcases : d.conf.refCh = 0 ∨ d.conf.refCh = 1 := by omega
    rcases hcases with hzero | hone
    · rw [hzero]
      rfl
    · rw [hone]
      rfl
  rw [← hheads]
  unfold prepNext
  dsimp only
  split_ifs
  · dsimp only [dbgAssert]
    rw [if_pos ⟨by omega, by omega⟩]
    rfl
  · dsimp only [dbgAssert]
    rw [if_pos ⟨by omega, by omega⟩]
    rfl

/-- No points are left for the next histogram. -/
theorem channelsInv_prepNext (ref : d.conf.refCh ≤ TES_JITTER_NHISTS)
    (added : ∀ a ∈ d.added, a.InHist) (npts : d.publishing = false → d.curNpts = 0) :
    ChannelsInv d.prepNext := by
  have hheads := prepNext_heads ref
  unfold prepNext at hheads ⊢
  dsimp only at hheads ⊢
  split_ifs at hheads ⊢ with hpub
  · exact ⟨ref, hheads, fun p hp => absurd hp (Nat.not_lt_zero p), added⟩
  · refine ⟨ref, hheads, fun p hp => ?_, added⟩
    have hzero := npts (by simpa using hpub)
    dsimp only [dbgAssert] at hp
    omega

end JitterData

/-- Every event that becomes a point is of a channel that there is. -/
def KnownChannels (e : JitterEvent) (t : JitterTask) : Prop :=
  match e with
  | .packet call => t.active = true →
    (t.view.data.await call.slot.pkt).takes call.slot.pkt call.slot.err = true →
    JitterData.KnownEvents call.slot.pkt call.slot.pkt.eventNums 0
      ((t.view.data.await call.slot.pkt).countTick call.slot.pkt)
  | .request _ _ => True
  | .activate => True
  | .deactivate => True

/-- What holds in every state. -/
structure JitterInv (t : JitterTask) : Prop where
  conf : t.view.data.conf.refCh ≤ TES_JITTER_NHISTS
  added : ∀ a ∈ t.view.data.added, a.InHist
  channels : t.active = true → t.view.data.ChannelsInv

section Step

open JitterData

variable {t t' : JitterTask} {call : Call} {d : JitterData}

theorem channelsInv_publish (inv : ChannelsInv d) (conf : d.conf.refCh ≤ TES_JITTER_NHISTS)
    (pub : d.publishing = true) : ChannelsInv d.publish.2 := by
  unfold publish
  by_cases hdue : d.ticks = (d.curConf.ticks + 1) % 2 ^ 64
  · rw [if_pos hdue]
    rcases d.sock.send d.hist.encode with ⟨ok, sock⟩
    cases ok with
    | false => exact ⟨inv.ref, inv.heads, inv.queue, inv.added⟩
    | true =>
      apply channelsInv_dbgAssert
      apply channelsInv_prepNext
      · exact conf
      · exact inv.added
      · exact fun hno => Bool.noConfusion (pub.symm.trans hno)
  · rw [if_neg hdue]
    exact channelsInv_dbgAssert _ inv

theorem channelsInv_handle (v : View JitterData) (inv : ChannelsInv v.data)
    (conf : v.data.conf.refCh ≤ TES_JITTER_NHISTS)
    (known : (v.data.await call.slot.pkt).takes call.slot.pkt call.slot.err = true →
      KnownEvents call.slot.pkt call.slot.pkt.eventNums 0
        ((v.data.await call.slot.pkt).countTick call.slot.pkt)) :
    ChannelsInv (v.handle taskJitterPktHn call).2 := by
  unfold View.handle taskJitterPktHn
  dsimp only
  have hawait : ChannelsInv (v.data.await call.slot.pkt) := by
    unfold await
    dsimp only
    split_ifs
    · exact ⟨inv.ref, inv.heads, inv.queue, inv.added⟩
    · exact channelsInv_dbgAssert _ (channelsInv_dbgAssert _ inv)
  obtain ⟨-, hconf, -⟩ := await_spec call.slot.pkt v.data
  cases htakes : (v.data.await call.slot.pkt).takes call.slot.pkt call.slot.err with
  | false => exact hawait
  | true =>
    obtain ⟨-, cconf, -, -, -, cpub⟩ := countTick_spec htakes
    have hcount : ChannelsInv ((v.data.await call.slot.pkt).countTick call.slot.pkt) := by
      unfold countTick
      split_ifs
      · exact ⟨hawait.ref, hawait.heads, hawait.queue, hawait.added⟩
      · exact hawait
    have hevents := channelsInv_events _ _ _ hcount (known htakes)
    obtain ⟨hsame, -⟩ := events_spec call.slot.pkt call.slot.pkt.eventNums 0
      ((v.data.await call.slot.pkt).countTick call.slot.pkt)
    simp only [Bool.not_true, Bool.false_eq_true, if_false]
    rcases hev : ((v.data.await call.slot.pkt).countTick call.slot.pkt).events call.slot.pkt
      call.slot.pkt.eventNums 0 with ⟨go, d⟩
    rw [hev] at hevents hsame
    cases go with
    | false => exact hevents
    | true =>
      apply channelsInv_publish hevents
      · rw [hsame.conf, cconf, hconf]
        exact conf
      · exact hsame.publishing.trans cpub

theorem refCh_request (refCh : UInt8) (ticks : UInt64) (h : d.conf.refCh ≤ TES_JITTER_NHISTS) :
    (taskJitterReqHn refCh ticks d).2.conf.refCh ≤ TES_JITTER_NHISTS := by
  unfold taskJitterReqHn
  dsimp only
  split_ifs with hbad
  · exact h
  · rw [not_or] at hbad
    exact Nat.le_of_not_lt hbad.2

theorem jitterInv_step (e : JitterEvent) (t t' : JitterTask) (inv : JitterInv t)
    (known : KnownChannels e t) (h : jitterStep e t = some t') : JitterInv t' := by
  cases e with
  | packet call =>
    cases active : t.active with
    | false =>
      rw [jitterStep, if_neg (by simp [active])] at h
      obtain rfl := Option.some.inj h
      exact inv
    | true =>
      have hinv := channelsInv_handle t.view (inv.channels active) inv.conf (known active)
      obtain ⟨-, hcounts⟩ := jitterStep_packet active h
      rw [jitterStep, if_pos active] at h
      split_ifs at h
      obtain rfl := Option.some.inj h
      refine ⟨?_, hinv.added, fun _ => hinv⟩
      rcases hcounts with goes | completes
      · rw [goes.conf]
        exact inv.conf
      · rw [completes.conf]
        exact inv.conf
  | request refCh ticks =>
    obtain rfl := Option.some.inj h
    have hconf := refCh_request refCh ticks inv.conf
    have hsame : ∀ d : JitterData, ∃ conf,
        (taskJitterReqHn refCh ticks d).2 = { d with conf := conf } := by
      intro d
      unfold taskJitterReqHn
      dsimp only
      split_ifs
      · exact ⟨d.conf, rfl⟩
      · exact ⟨_, rfl⟩
    obtain ⟨conf, heq⟩ := hsame t.view.data
    dsimp only at hconf ⊢
    rw [heq] at hconf
    rw [heq]
    refine ⟨hconf, inv.added, fun active => ?_⟩
    obtain ⟨h₁, h₂, h₃, h₄⟩ := inv.channels active
    exact ⟨h₁, h₂, h₃, h₄⟩
  | activate =>
    obtain rfl := Option.some.inj h
    have hinv : ChannelsInv (taskJitterWakeup t.view.data).2 := by
      unfold taskJitterWakeup
      dsimp only
      apply channelsInv_prepNext
      · exact inv.conf
      · exact inv.added
      · exact fun _ => rfl
    exact ⟨inv.conf, inv.added, fun _ => hinv⟩
  | deactivate =>
    obtain rfl := Option.some.inj h
    exact ⟨inv.conf, inv.added, fun active => Bool.noConfusion active⟩

end Step

/-- Every point is added to a bin of the histogram of its channel, if every event that becomes a
point is of a channel that there is. -/
theorem added_inHist (sends : ℕ → Bool) (evs : List JitterEvent) (t : JitterTask)
    (known : Runs.Along jitterStep KnownChannels evs (jitterStart sends))
    (h : Runs.run jitterStep evs (jitterStart sends) = some t) :
    ∀ a ∈ t.view.data.added, a.InHist := by
  have start : JitterInv (jitterStart sends) :=
    ⟨Nat.zero_le _, fun _ ha => absurd ha List.not_mem_nil, fun active => Bool.noConfusion active⟩
  exact (Runs.invariant_of_along jitterInv_step start known h).added

/-- A point of channel 1 between two reference events. -/
def onePoint : List JitterEvent :=
  [.activate, .packet ⟨jitterTick, 0⟩, .packet ⟨jitterPeak 0 3, 0⟩, .packet ⟨jitterPeak 1 2, 0⟩,
    .packet ⟨jitterPeak 0 5, 0⟩]

theorem added_inHist_one : ∃ t, Runs.run jitterStep onePoint (jitterStart fun _ => true) = some t ∧
    t.view.data.added.map (fun a => (a.hid, a.bin, a.ch)) = [(0, 513, 1)] ∧
    ∀ a ∈ t.view.data.added, a.InHist := by
  obtain ⟨t, hrun, hadded⟩ : ∃ t,
      Runs.run jitterStep onePoint (jitterStart fun _ => true) = some t ∧
      t.view.data.added.map (fun a => (a.hid, a.bin, a.ch)) = [(0, 513, 1)] := ⟨_, rfl, rfl⟩
  refine ⟨t, hrun, hadded, ?_⟩
  apply added_inHist (fun _ => true) onePoint t _ hrun
  refine ⟨trivial, fun t₁ h₁ => ?_⟩
  obtain rfl := Option.some.inj h₁
  refine ⟨fun _ _ => ⟨fun hno => absurd hno (by decide), trivial⟩, fun t₂ h₂ => ?_⟩
  obtain rfl := Option.some.inj h₂
  refine ⟨fun _ _ => ⟨fun _ _ _ _ => by decide, trivial⟩, fun t₃ h₃ => ?_⟩
  obtain rfl := Option.some.inj h₃
  refine ⟨fun _ _ => ⟨fun _ _ _ _ => by decide, trivial⟩, fun t₄ h₄ => ?_⟩
  obtain rfl := Option.some.inj h₄
  exact ⟨fun _ _ => ⟨fun _ _ _ _ => by decide, trivial⟩, fun _ _ => trivial⟩

/-- A point of channel 5 between two reference events. -/
def strangePoint : List JitterEvent :=
  [.activate, .packet ⟨jitterTick, 0⟩, .packet ⟨jitterPeak 0 3, 0⟩, .packet ⟨jitterPeak 5 2, 0⟩,
    .packet ⟨jitterPeak 0 5, 0⟩]

theorem not_added_inHist :
    ¬ ∀ (evs : List JitterEvent) (t : JitterTask),
      Runs.run jitterStep evs (jitterStart fun _ => true) = some t →
      ∀ a ∈ t.view.data.added, a.InHist := by
  intro h
  obtain ⟨t, hrun, hadded⟩ : ∃ t,
      Runs.run jitterStep strangePoint (jitterStart fun _ => true) = some t ∧
      t.view.data.added.map AddedPoint.hid = [4] := ⟨_, rfl, rfl⟩
  obtain ⟨a, hmem, hhid⟩ : ∃ a ∈ t.view.data.added, a.hid = 4 :=
    List.mem_map.1 (by rw [hadded]; exact List.mem_cons_self)
  have hlt := (h strangePoint t hrun a hmem).hid.2
  rw [hhid] at hlt
  exact absurd hlt (by decide)

end Tesd
