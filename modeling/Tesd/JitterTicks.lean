import Tesd.Jitter
import Tesd.Lib.Runs

/-!
# The ticks of a jitter histogram

A histogram is published when one tick more than configured has been counted.  The number is
compared at the end of `task_jitter_pkt_hn` only, which a tick does not reach while the first
reference event is waited for.
-/

namespace Tesd

namespace JitterData

/-- What the events of a frame leave as it is. -/
structure SameCounts (d d' : JitterData) : Prop where
  ticks : d'.ticks = d.ticks
  conf : d'.conf = d.conf
  curConf : d'.curConf = d.curConf
  sock : d'.sock = d.sock
  publishing : d'.publishing = d.publishing

variable {d d' d'' : JitterData}

theorem sameCounts_refl (d : JitterData) : SameCounts d d := ⟨rfl, rfl, rfl, rfl, rfl⟩

theorem SameCounts.trans (h : SameCounts d d') (h' : SameCounts d' d'') : SameCounts d d'' :=
  ⟨h'.ticks.trans h.ticks, h'.conf.trans h.conf, h'.curConf.trans h.curConf,
    h'.sock.trans h.sock, h'.publishing.trans h.publishing⟩

theorem sameCounts_dbgAssert (c : Bool) (d : JitterData) : SameCounts d (d.dbgAssert c) :=
  ⟨rfl, rfl, rfl, rfl, rfl⟩

theorem sameCounts_addToUntil (delay : ℕ) (d : JitterData) : SameCounts d (d.addToUntil delay) :=
  ⟨rfl, rfl, rfl, rfl, rfl⟩

theorem sameCounts_addToSince (delay : ℕ) (d : JitterData) : SameCounts d (d.addToSince delay) :=
  ⟨rfl, rfl, rfl, rfl, rfl⟩

theorem sameCounts_savePoints (d : JitterData) : SameCounts d d.savePoints := by
  have hfold : ∀ (ps : List ℕ) (d : JitterData), SameCounts d (ps.foldl savePoint d) := by
    intro ps
    induction ps with
    | nil => exact sameCounts_refl
    | cons p ps ih =>
      intro d
      have hone : SameCounts d (d.savePoint p) := ⟨rfl, rfl, rfl, rfl, rfl⟩
      exact hone.trans (ih _)
  obtain ⟨h₁, h₂, h₃, h₄, h₅⟩ := hfold (List.range (d.curNpts - 1)) d
  exact ⟨h₁, h₂, h₃, h₄, h₅⟩

theorem makeNew_spec (ch : ℕ) (d : JitterData) :
    SameCounts d (d.makeNew ch) ∧ d.curNpts ≤ (d.makeNew ch).curNpts := by
  unfold makeNew
  dsimp only
  by_cases hfull : (d.dbgAssert (ch != d.curConf.refCh)).curNpts < MAX_SIMULT_POINTS - 1
  · rw [if_pos hfull]
    exact ⟨⟨rfl, rfl, rfl, rfl, rfl⟩, Nat.le_succ _⟩
  · rw [if_neg hfull]
    exact ⟨sameCounts_dbgAssert _ d, Nat.le_refl _⟩

/-- One event: the handler returns since it waits for a reference event, or a point is under way
then. -/
theorem event_cases (pkt : Tespkt) (e : ℕ) (d : JitterData) :
    SameCounts d (d.event pkt e).2 ∧
      (((d.event pkt e).1 = false ∧ d.curNpts = 0) ∨
        ((d.event pkt e).1 = true ∧ 0 < (d.event pkt e).2.curNpts)) := by
  unfold event
  dsimp only
  generalize hd : d.dbgAssert _ = d₀
  have h₀ : SameCounts d d₀ := by
    rw [← hd]
    exact sameCounts_dbgAssert _ d
  have hn : d₀.curNpts = d.curNpts := by
    rw [← hd]
    rfl
  have huntil := h₀.trans (sameCounts_addToUntil (pkt.eventToff e) d₀)
  cases href : (pkt.evtFlCH e == d₀.curConf.refCh && !pkt.isTick) with
  | true =>
    -- a reference event
    simp only [Bool.not_true, Bool.false_and, Bool.false_eq_true, if_false, if_true]
    have hsave := huntil.trans (sameCounts_savePoints _)
    exact ⟨hsave.trans (sameCounts_dbgAssert _ _), Or.inr ⟨trivial, Nat.one_pos⟩⟩
  | false =>
    simp only [Bool.not_false, Bool.true_and, beq_iff_eq, if_true, Bool.false_eq_true, if_false]
    have hsince := huntil.trans (sameCounts_addToSince (pkt.eventToff e) _)
    have hthere := hsince.trans (sameCounts_dbgAssert (decide (d₀.curNpts > 0)) _)
    by_cases hzero : d₀.curNpts = 0
    · rw [if_pos hzero]
      exact ⟨h₀, Or.inl ⟨rfl, hn.symm.trans hzero⟩⟩
    · rw [if_neg hzero]
      have hpos : 0 < d₀.curNpts := Nat.pos_of_ne_zero hzero
      cases htick : pkt.isTick with
      | true => exact ⟨hthere, Or.inr ⟨rfl, hpos⟩⟩
      | false =>
        obtain ⟨hnew, hmore⟩ := makeNew_spec (pkt.evtFlCH e)
          (((d₀.addToUntil (pkt.eventToff e)).addToSince (pkt.eventToff e)).dbgAssert
            (decide (d₀.curNpts > 0)))
        exact ⟨hthere.trans hnew, Or.inr ⟨rfl, Nat.lt_of_lt_of_le hpos hmore⟩⟩

theorem events_spec (pkt : Tespkt) (n e : ℕ) (d : JitterData) :
    SameCounts d (d.events pkt n e).2 ∧ ((d.events pkt n e).1 = false → d.curNpts = 0) ∧
      (0 < d.curNpts → 0 < (d.events pkt n e).2.curNpts) := by
  induction n generalizing e d with
  | zero => exact ⟨sameCounts_refl d, fun h => Bool.noConfusion h, id⟩
  | succ n ih =>
    obtain ⟨hsame, hcases⟩ := event_cases pkt e d
    rw [events]
    rcases hev : d.event pkt e with ⟨go, d₁⟩
    rw [hev] at hsame hcases
    dsimp only at hsame hcases
    rcases hcases with ⟨rfl, hzero⟩ | ⟨rfl, hpos⟩
    · exact ⟨hsame, fun _ => hzero, fun h => absurd h (by omega)⟩
    · obtain ⟨hrest, hstop, hgo⟩ := ih (e + 1) d₁
      exact ⟨hsame.trans hrest, fun h => absurd (hstop h) (by omega), fun _ => hgo hpos⟩

end JitterData

/-- A tick without an error. -/
def isValidTick (call : Call) : Bool := call.slot.err == 0 && call.slot.pkt.isTick

/-- The ticks that an event has dispatched to the task. -/
def ticksOf (e : JitterEvent) (t : JitterTask) : ℕ :=
  match e with
  | .packet call => if t.active && isValidTick call then 1 else 0
  | .request _ _ => 0
  | .activate => 0
  | .deactivate => 0

/-- The number of ticks after a frame, unless a histogram is published. -/
def ticksAfter (call : Call) (d : JitterData) : ℕ :=
  if isValidTick call then (d.ticks + 1) % 2 ^ 64 else d.ticks

/-- What a frame does that completes no histogram. -/
structure GoesOn (call : Call) (d d' : JitterData) : Prop where
  conf : d'.conf = d.conf
  curConf : d'.curConf = d.curConf
  sock : d'.sock = d.sock
  ticks : d'.ticks = ticksAfter call d
  referenced : 0 < d.curNpts → 0 < d'.curNpts
  notDue : isValidTick call = true →
    d.curNpts = 0 ∨ d'.ticks ≠ (d.curConf.ticks + 1) % 2 ^ 64

/-- What a frame does that completes a histogram. -/
structure Completes (call : Call) (d d' : JitterData) : Prop where
  due : ticksAfter call d = (d.curConf.ticks + 1) % 2 ^ 64
  conf : d'.conf = d.conf
  curConf : d'.curConf = d.conf
  ticks : d'.ticks = 1
  referenced : 0 < d'.curNpts
  published : d'.sock.published.length = d.sock.published.length + 1

section Handler

open JitterData

variable {d d' : JitterData} {call : Call}

theorem await_spec (pkt : Tespkt) (d : JitterData) :
    (d.await pkt).ticks = d.ticks ∧ (d.await pkt).conf = d.conf ∧
      (d.await pkt).curConf = d.curConf ∧ (d.await pkt).sock = d.sock ∧
      (d.await pkt).curNpts = d.curNpts ∧ (pkt.isTick = true → (d.await pkt).publishing = true) := by
  unfold await
  cases hpub : d.publishing <;> cases htick : pkt.isTick <;> simp [dbgAssert, hpub]

/-- A tick without an error is looked at. -/
theorem takes_of_isValidTick (h : isValidTick call = true) (pub : d.publishing = true) :
    d.takes call.slot.pkt call.slot.err = true := by
  unfold isValidTick at h
  rw [Bool.and_eq_true, beq_iff_eq] at h
  have hev : call.slot.pkt.isEvent = true := by
    have := h.2
    unfold Tespkt.isTick at this
    exact (Bool.and_eq_true_iff.1 this).1
  simp [takes, pub, h.1, hev, Tespkt.isTraceLong_of_isTick h.2]

theorem countTick_spec (h : d.takes call.slot.pkt call.slot.err = true) :
    (d.countTick call.slot.pkt).ticks = ticksAfter call d ∧
      (d.countTick call.slot.pkt).conf = d.conf ∧ (d.countTick call.slot.pkt).curConf = d.curConf ∧
      (d.countTick call.slot.pkt).sock = d.sock ∧ (d.countTick call.slot.pkt).curNpts = d.curNpts ∧
      (d.countTick call.slot.pkt).publishing = true := by
  unfold takes at h
  simp only [Bool.and_eq_true, Bool.not_eq_true', Bool.or_eq_false_iff, Bool.not_eq_false',
    bne_eq_false_iff_eq] at h
  obtain ⟨⟨⟨hpub, herr⟩, -⟩, -⟩ := h
  unfold countTick ticksAfter isValidTick
  rw [herr]
  cases htick : call.slot.pkt.isTick with
  | true => exact ⟨rfl, rfl, rfl, rfl, rfl, hpub⟩
  | false => exact ⟨rfl, rfl, rfl, rfl, rfl, hpub⟩

/-- The end of the handler: a histogram is due and sent, or none is due. -/
theorem publish_cases (d : JitterData) (pub : d.publishing = true) :
    (d.ticks ≠ (d.curConf.ticks + 1) % 2 ^ 64 ∧ d.publish.1 = .zero ∧ SameCounts d d.publish.2 ∧
        d.publish.2.curNpts = d.curNpts) ∨
      (d.ticks = (d.curConf.ticks + 1) % 2 ^ 64 ∧ d.publish.1 = .zero ∧
        d.publish.2.conf = d.conf ∧ d.publish.2.curConf = d.conf ∧ d.publish.2.ticks = 1 ∧
        d.publish.2.curNpts = 1 ∧
        d.publish.2.sock.published.length = d.sock.published.length + 1) ∨
      d.publish.1 = .error := by
  unfold publish
  by_cases hdue : d.ticks = (d.curConf.ticks + 1) % 2 ^ 64
  · rw [if_pos hdue]
    right
    rcases hsend : d.sock.send d.hist.encode with ⟨ok, sock⟩
    cases ok with
    | false => exact Or.inr rfl
    | true =>
      left
      unfold PubSock.send at hsend
      split_ifs at hsend with hok
      · obtain ⟨-, rfl⟩ := Prod.mk.inj hsend
        unfold prepNext
        dsimp only
        rw [if_pos pub]
        exact ⟨hdue, rfl, rfl, rfl, rfl, rfl, List.length_append⟩
      · cases hsend
  · rw [if_neg hdue]
    exact Or.inl ⟨hdue, rfl, sameCounts_dbgAssert _ d, rfl⟩

/-- What `task_jitter_pkt_hn` does about the ticks. -/
theorem jitter_cases (call : Call) (v : View JitterData) :
    ((v.handle taskJitterPktHn call).1 = .zero ∧
        GoesOn call v.data (v.handle taskJitterPktHn call).2) ∨
      ((v.handle taskJitterPktHn call).1 = .zero ∧
        Completes call v.data (v.handle taskJitterPktHn call).2) ∨
      (v.handle taskJitterPktHn call).1 = .error := by
  unfold View.handle taskJitterPktHn
  dsimp only
  obtain ⟨hticks, hconf, hcur, hsock, hnpts, hpub⟩ := await_spec call.slot.pkt v.data
  cases htakes : (v.data.await call.slot.pkt).takes call.slot.pkt call.slot.err with
  | false =>
    left
    have hno : isValidTick call = false := by
      cases hvalid : isValidTick call with
      | false => rfl
      | true =>
        have htick : call.slot.pkt.isTick = true := by
          unfold isValidTick at hvalid
          exact (Bool.and_eq_true_iff.1 hvalid).2
        cases htakes.symm.trans (takes_of_isValidTick hvalid (hpub htick))
    refine ⟨rfl, hconf, hcur, hsock, ?_, fun h => ?_, fun h => Bool.noConfusion (hno.symm.trans h)⟩
    · rw [ticksAfter, hno]
      exact hticks
    · exact Nat.lt_of_lt_of_eq h hnpts.symm
  | true =>
    obtain ⟨cticks, cconf, ccur, csock, cnpts, cpub⟩ := countTick_spec htakes
    have hafter : ticksAfter call (v.data.await call.slot.pkt) = ticksAfter call v.data := by
      rw [ticksAfter, ticksAfter, hticks]
    obtain ⟨hsame, hstop, hgo⟩ := events_spec call.slot.pkt call.slot.pkt.eventNums 0
      ((v.data.await call.slot.pkt).countTick call.slot.pkt)
    rcases hev : ((v.data.await call.slot.pkt).countTick call.slot.pkt).events call.slot.pkt
      call.slot.pkt.eventNums 0 with ⟨go, d⟩
    rw [hev] at hsame hstop hgo
    dsimp only at hsame hstop hgo
    have dconf := hsame.conf.trans (cconf.trans hconf)
    have dcur := hsame.curConf.trans (ccur.trans hcur)
    have dsock := hsame.sock.trans (csock.trans hsock)
    have dticks := hsame.ticks.trans (cticks.trans hafter)
    have dref : 0 < v.data.curNpts → 0 < d.curNpts := fun h => hgo (by omega)
    cases go with
    | false =>
      -- the first reference event is waited for
      left
      have hzero := hstop rfl
      exact ⟨rfl, dconf, dcur, dsock, dticks, dref, fun _ => Or.inl (by omega)⟩
    | true =>
      simp only [Bool.not_true, Bool.false_eq_true, if_false]
      rcases publish_cases d (hsame.publishing.trans cpub) with
        ⟨hnot, hrc, hkeep, hnp⟩ | ⟨hdue, hrc, pconf, pcur, pticks, pnpts, ppub⟩ | herror
      · refine Or.inl ⟨hrc, hkeep.conf.trans dconf, hkeep.curConf.trans dcur, hkeep.sock.trans dsock,
          hkeep.ticks.trans dticks, fun h => ?_, fun _ => Or.inr ?_⟩
        · rw [hnp]
          exact dref h
        · rw [hkeep.ticks, ← dcur]
          exact hnot
      · refine Or.inr (Or.inl ⟨hrc, ?_, pconf.trans dconf, pcur.trans dconf, pticks, ?_, ?_⟩)
        · rw [← dticks, hdue, dcur]
        · rw [pnpts]
          exact Nat.one_pos
        · rw [ppub, dsock]
      · exact Or.inr (Or.inr herror)

end Handler

/-- The histograms published so far. -/
def JitterTask.published (t : JitterTask) : ℕ := t.view.data.sock.published.length

/-- A reference event has been seen by the time that as many ticks as configured have been counted
since the wake-up, when the next tick arrives. -/
def Referenced (e : JitterEvent) (t : JitterTask) : Prop :=
  match e with
  | .packet call => t.active = true → isValidTick call = true → t.view.data.curNpts = 0 →
    t.view.data.ticks ≠ t.view.data.curConf.ticks
  | .request _ _ => True
  | .activate => True
  | .deactivate => True

/-- How the ticks are counted from the state `t` on: there are never more than configured, between
two publications without a wake-up in between there are just as many as configured, and once a
reference event has been seen there are never more without a publication. -/
structure TickCounting (t : JitterTask) : Prop where
  le : t.view.data.ticks ≤ t.view.data.curConf.ticks
  apart : ∀ (e : JitterEvent) (t₁ : JitterTask) (mid : List JitterEvent) (t₂ : JitterTask)
    (e' : JitterEvent) (t₃ : JitterTask), jitterStep e t = some t₁ → t.published < t₁.published →
    Runs.run jitterStep mid t₁ = some t₂ → t₂.published = t₁.published →
    jitterStep e' t₂ = some t₃ → t₂.published < t₃.published →
    JitterEvent.activate ∉ mid ++ [e'] →
    Runs.total jitterStep ticksOf (mid ++ [e']) t₁ = t₂.view.data.curConf.ticks
  goesOn : 0 < t.view.data.curNpts → ∀ (mid : List JitterEvent) (t₂ : JitterTask),
    Runs.run jitterStep mid t = some t₂ → JitterEvent.activate ∉ mid →
    t.view.data.curConf.ticks < Runs.total jitterStep ticksOf mid t → t.published < t₂.published

/-! ## Steps and runs -/

/-- What holds of the ticks in every state. -/
structure TicksInv (d : JitterData) : Prop where
  le : d.ticks ≤ d.curConf.ticks
  small : d.curConf.ticks < 2 ^ 64
  conf : 0 < d.conf.ticks ∧ d.conf.ticks < 2 ^ 64

section Step

variable {t t' : JitterTask} {call : Call} {d d' : JitterData}

theorem ticksInv_goesOn (inv : TicksInv d) (goes : GoesOn call d d')
    (early : isValidTick call = true → d.curNpts = 0 → d.ticks ≠ d.curConf.ticks) :
    TicksInv d' ∧ d'.ticks = d.ticks + if isValidTick call then 1 else 0 := by
  have hle := inv.le
  have hsmall := inv.small
  have hticks := goes.ticks
  have hcount : d'.ticks = d.ticks + (if isValidTick call then 1 else 0) ∧
      d'.ticks ≤ d.curConf.ticks := by
    unfold ticksAfter at hticks
    cases hvalid : isValidTick call with
    | false =>
      rw [hvalid, if_neg Bool.false_ne_true] at hticks
      exact ⟨hticks, by omega⟩
    | true =>
      rw [hvalid, if_pos rfl] at hticks
      rw [if_pos rfl]
      have hne : d.ticks ≠ d.curConf.ticks := by
        intro heq
        rcases goes.notDue hvalid with hzero | hnot
        · exact early hvalid hzero heq
        · rw [hticks, heq] at hnot
          exact hnot rfl
      rw [Nat.mod_eq_of_lt (by omega)] at hticks
      omega
  refine ⟨⟨?_, ?_, ?_⟩, hcount.1⟩
  · rw [goes.curConf]
    exact hcount.2
  · rw [goes.curConf]
    exact hsmall
  · rw [goes.conf]
    exact inv.conf

theorem ticksInv_completes (inv : TicksInv d) (completes : Completes call d d') : TicksInv d' := by
  obtain ⟨hpos, hsmall⟩ := inv.conf
  refine ⟨?_, ?_, ?_⟩
  · rw [completes.ticks, completes.curConf]
    exact hpos
  · rw [completes.curConf]
    exact hsmall
  · rw [completes.conf]
    exact inv.conf

theorem jitterStep_packet (active : t.active = true) (h : jitterStep (.packet call) t = some t') :
    t'.active = true ∧
      (GoesOn call t.view.data t'.view.data ∨ Completes call t.view.data t'.view.data) := by
  unfold jitterStep at h
  dsimp only at h
  rw [if_pos active] at h
  split_ifs at h with herror
  cases h
  rcases jitter_cases call t.view with ⟨-, goes⟩ | ⟨-, completes⟩ | herr
  · exact ⟨active, Or.inl goes⟩
  · exact ⟨active, Or.inr completes⟩
  · exact absurd herr herror

theorem ticksInv_request (refCh : UInt8) (ticks : UInt64) (inv : TicksInv d) :
    TicksInv (taskJitterReqHn refCh ticks d).2 := by
  unfold taskJitterReqHn
  dsimp only
  split_ifs with hbad
  · exact inv
  · rw [not_or] at hbad
    exact ⟨inv.le, inv.small, Nat.pos_of_ne_zero hbad.1, ticks.toNat_lt⟩

theorem ticksInv_step (e : JitterEvent) (t t' : JitterTask) (inv : TicksInv t.view.data)
    (early : Referenced e t) (h : jitterStep e t = some t') : TicksInv t'.view.data := by
  cases e with
  | packet call =>
    cases active : t.active with
    | false =>
      rw [jitterStep, if_neg (by simp [active])] at h
      obtain rfl := Option.some.inj h
      exact inv
    | true =>
      rcases (jitterStep_packet active h).2 with goes | completes
      · exact (ticksInv_goesOn inv goes (early active)).1
      · exact ticksInv_completes inv completes
  | request refCh ticks =>
    obtain rfl := Option.some.inj h
    exact ticksInv_request refCh ticks inv
  | activate =>
    obtain rfl := Option.some.inj h
    exact ⟨Nat.zero_le _, inv.conf.2, inv.conf⟩
  | deactivate =>
    obtain rfl := Option.some.inj h
    exact inv

/-- A step without a wake-up, once a reference event has been seen: the tick is counted, or a
histogram is published. -/
theorem ticks_step (e : JitterEvent) (inv : TicksInv t.view.data) (ref : 0 < t.view.data.curNpts)
    (awake : e ≠ .activate) (h : jitterStep e t = some t') :
    TicksInv t'.view.data ∧ 0 < t'.view.data.curNpts ∧
      ((t'.published = t.published ∧ t'.view.data.ticks = t.view.data.ticks + ticksOf e t ∧
          t'.view.data.curConf = t.view.data.curConf) ∨
        (t'.published = t.published + 1 ∧ t'.view.data.ticks = 1 ∧
          (0 < t.view.data.ticks →
            t.view.data.ticks + ticksOf e t = t.view.data.curConf.ticks + 1))) := by
  have early : Referenced e t := by
    cases e with
    | packet call => exact fun _ _ hzero => absurd hzero (by omega)
    | request refCh ticks => trivial
    | activate => trivial
    | deactivate => trivial
  have inv' := ticksInv_step e t t' inv early h
  refine ⟨inv', ?_⟩
  cases e with
  | packet call =>
    cases active : t.active with
    | false =>
      rw [jitterStep, if_neg (by simp [active])] at h
      obtain rfl := Option.some.inj h
      refine ⟨ref, Or.inl ⟨rfl, ?_, rfl⟩⟩
      simp [ticksOf, active]
    | true =>
      have hof : ticksOf (.packet call) t = if isValidTick call then 1 else 0 := by
        simp [ticksOf, active]
      rcases (jitterStep_packet active h).2 with goes | completes
      · have hticks := (ticksInv_goesOn inv goes (early active)).2
        refine ⟨goes.referenced ref, Or.inl ⟨?_, ?_, goes.curConf⟩⟩
        · rw [JitterTask.published, JitterTask.published, goes.sock]
        · rw [hof, hticks]
      · refine ⟨completes.referenced, Or.inr ⟨completes.published, completes.ticks, fun hpos => ?_⟩⟩
        have hdue := completes.due
        have hle := inv.le
        have hsmall := inv.small
        rw [hof]
        unfold ticksAfter at hdue
        split_ifs at hdue ⊢ <;> omega
  | request refCh ticks =>
    obtain rfl := Option.some.inj h
    unfold taskJitterReqHn
    dsimp only
    split_ifs <;> exact ⟨ref, Or.inl ⟨rfl, rfl, rfl⟩⟩
  | activate => exact absurd rfl awake
  | deactivate =>
    obtain rfl := Option.some.inj h
    exact ⟨ref, Or.inl ⟨rfl, rfl, rfl⟩⟩

theorem ticks_run {mid : List JitterEvent} (inv : TicksInv t.view.data)
    (ref : 0 < t.view.data.curNpts) (awake : JitterEvent.activate ∉ mid)
    (h : Runs.run jitterStep mid t = some t') :
    TicksInv t'.view.data ∧ 0 < t'.view.data.curNpts ∧ t.published ≤ t'.published ∧
      (t'.published = t.published →
        t'.view.data.ticks = t.view.data.ticks + Runs.total jitterStep ticksOf mid t ∧
          t'.view.data.curConf = t.view.data.curConf) := by
  induction mid generalizing t with
  | nil =>
    obtain rfl := Option.some.inj h
    exact ⟨inv, ref, Nat.le_refl _, fun _ => ⟨rfl, rfl⟩⟩
  | cons e mid ih =>
    rw [List.mem_cons, not_or] at awake
    obtain ⟨t₁, ht, hrest⟩ := Runs.run_cons h
    obtain ⟨inv₁, ref₁, hstep⟩ := ticks_step e inv ref (Ne.symm awake.1) ht
    obtain ⟨inv', ref', hmore, hsame⟩ := ih inv₁ ref₁ awake.2 hrest
    rcases hstep with ⟨hpub, hticks, hcur⟩ | ⟨hpub, -⟩
    · refine ⟨inv', ref', by omega, fun heq => ?_⟩
      obtain ⟨hticks', hcur'⟩ := hsame (by omega)
      rw [Runs.total_cons ht, hticks', hticks, hcur', hcur]
      exact ⟨Nat.add_assoc _ _ _, rfl⟩
    · exact ⟨inv', ref', by omega, fun heq => absurd heq (by omega)⟩

/-- A step in which a histogram is published is a frame, and one tick has been counted then. -/
theorem published_step (e : JitterEvent) (inv : TicksInv t.view.data)
    (h : jitterStep e t = some t') (more : t.published < t'.published) :
    TicksInv t'.view.data ∧ t'.view.data.ticks = 1 ∧ 0 < t'.view.data.curNpts := by
  cases e with
  | packet call =>
    cases active : t.active with
    | false =>
      rw [jitterStep, if_neg (by simp [active])] at h
      obtain rfl := Option.some.inj h
      exact absurd more (Nat.lt_irrefl _)
    | true =>
      rcases (jitterStep_packet active h).2 with goes | completes
      · rw [JitterTask.published, JitterTask.published, goes.sock] at more
        exact absurd more (Nat.lt_irrefl _)
      · exact ⟨ticksInv_completes inv completes, completes.ticks, completes.referenced⟩
  | request refCh ticks =>
    obtain rfl := Option.some.inj h
    unfold taskJitterReqHn at more
    dsimp only at more
    split_ifs at more <;> exact absurd more (Nat.lt_irrefl _)
  | activate =>
    obtain rfl := Option.some.inj h
    exact absurd more (Nat.lt_irrefl _)
  | deactivate =>
    obtain rfl := Option.some.inj h
    exact absurd more (Nat.lt_irrefl _)

end Step

/-- The ticks are counted as they should be if at most as many ticks as configured come before the
first reference event after a wake-up. -/
theorem tick_counting (sends : ℕ → Bool) (evs : List JitterEvent) (t : JitterTask)
    (early : Runs.Along jitterStep Referenced evs (jitterStart sends))
    (h : Runs.run jitterStep evs (jitterStart sends) = some t) : TickCounting t := by
  have start : TicksInv (jitterStart sends).view.data :=
    ⟨Nat.le_refl 0, Nat.two_pow_pos 64, (by decide : 0 < 5), (by decide : 5 < 2 ^ 64)⟩
  have inv : TicksInv t.view.data :=
    Runs.invariant_of_along ticksInv_step start early h
  refine ⟨inv.le, ?_, ?_⟩
  · intro e t₁ mid t₂ e' t₃ hstep more hmid hquiet hstep' more' awake
    rw [List.mem_append, not_or, List.mem_singleton] at awake
    obtain ⟨inv₁, hone, href⟩ := published_step e inv hstep more
    obtain ⟨inv₂, href₂, -, hsame⟩ := ticks_run inv₁ href awake.1 hmid
    obtain ⟨hticks, hcur⟩ := hsame hquiet
    obtain ⟨-, -, hlast⟩ := ticks_step e' inv₂ href₂ (Ne.symm awake.2) hstep'
    rcases hlast with ⟨hno, -⟩ | ⟨-, -, hdue⟩
    · omega
    · have := hdue (by omega)
      rw [Runs.total_append _ hmid, Runs.total_singleton]
      omega
  · intro href mid t₂ hmid awake hmany
    obtain ⟨inv₂, -, hle, hsame⟩ := ticks_run inv href awake hmid
    by_contra hno
    obtain ⟨hticks, hcur⟩ := hsame (by omega)
    have hle₂ := inv₂.le
    rw [hcur] at hle₂
    omega

/-- A histogram over one tick. -/
def oneTick : List JitterEvent :=
  [.request 0 1, .activate, .packet ⟨jitterTick, 0⟩, .packet ⟨jitterPeak 0 3, 0⟩,
    .packet ⟨jitterTick, 0⟩]

theorem tick_counting_one : ∃ t, Runs.run jitterStep oneTick (jitterStart fun _ => true) = some t ∧
    t.published = 1 ∧ TickCounting t := by
  obtain ⟨t, hrun, hpub⟩ : ∃ t, Runs.run jitterStep oneTick (jitterStart fun _ => true) = some t ∧
      t.published = 1 := ⟨_, rfl, rfl⟩
  refine ⟨t, hrun, hpub, ?_⟩
  apply tick_counting (fun _ => true) oneTick t _ hrun
  refine ⟨trivial, fun t₁ h₁ => ⟨trivial, fun t₂ h₂ => ?_⟩⟩
  obtain rfl := Option.some.inj h₁
  obtain rfl := Option.some.inj h₂
  refine ⟨fun _ _ _ => by decide, fun t₃ h₃ => ?_⟩
  obtain rfl := Option.some.inj h₃
  refine ⟨fun _ hvalid => absurd hvalid (by decide), fun t₄ h₄ => ?_⟩
  obtain rfl := Option.some.inj h₄
  exact ⟨fun _ _ hzero => absurd hzero (by decide), fun _ _ => trivial⟩

/-- Six ticks before the first reference event, of a task that publishes every five. -/
def sixTicks : List JitterEvent := .activate :: List.replicate 6 (.packet ⟨jitterTick, 0⟩)

theorem not_tick_counting :
    ¬ ∀ (evs : List JitterEvent) (t : JitterTask),
      Runs.run jitterStep evs (jitterStart fun _ => true) = some t → TickCounting t := by
  intro h
  obtain ⟨t, hrun, hticks, hconf⟩ : ∃ t,
      Runs.run jitterStep sixTicks (jitterStart fun _ => true) = some t ∧
      t.view.data.ticks = 6 ∧ t.view.data.curConf.ticks = 5 := ⟨_, rfl, rfl, rfl⟩
  have hle := (h sixTicks t hrun).le
  omega

end Tesd
