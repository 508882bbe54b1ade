import Tesd.AiobufTwin
import Tesd.CapIdle
import Tesd.TickIndex

/-!
# Two jobs in step

Two jobs that differ in what earlier jobs left behind -- stale bytes in the buffer zones and the
type and size of the last event -- handle the same frames alike.  The leftovers are compared with
the first event frame of a job, for its flag `changed`, and are gone after it.
-/

namespace Tesd

open Aiobuf

/-- The core with another type and size of the previous event. -/
def Core.withPrev (esize etype : ℕ) (c : Core) : Core :=
  { c with prevEsize := esize, prevEtype := etype }

theorem Core.withPrev_self (c : Core) : c = c.withPrev c.prevEsize c.prevEtype := rfl

/-- The frame has another type or size than the previous event. -/
def Frame.Differs (f : Frame) (prevEsize prevEtype : ℕ) : Prop :=
  prevEtype ≠ linearEtype f.pkt.etypePKT f.pkt.etypeTR ∨ prevEsize ≠ f.pkt.esize

/-- The first event frame differs from both pairs of leftovers or from neither. -/
def SameFlag (esize etype esize' etype' : ℕ) : List Frame → Prop
  | [] => True
  | f :: fs =>
    if f.validEvent then f.Differs esize' etype' ↔ f.Differs esize etype
    else SameFlag esize etype esize' etype' fs

instance (f : Frame) (prevEsize prevEtype : ℕ) : Decidable (f.Differs prevEsize prevEtype) :=
  inferInstanceAs (Decidable (_ ∨ _))

instance decidableSameFlag (esize etype esize' etype' : ℕ) :
    (fs : List Frame) → Decidable (SameFlag esize etype esize' etype' fs)
  | [] => isTrue trivial
  | f :: fs =>
    if h : f.validEvent then
      decidable_of_iff (f.Differs esize' etype' ↔ f.Differs esize etype)
        (by rw [SameFlag, if_pos h])
    else
      have := decidableSameFlag esize etype esize' etype' fs
      decidable_of_iff (SameFlag esize etype esize' etype' fs) (by rw [SameFlag, if_neg h])

/-- The buffers of the second job are those of the first one but for stale bytes. -/
structure JobTwins (job job' : Job) : Prop where
  queued : job'.queued = job.queued
  aio : ∀ ds, Twins (job.aio ds) (job'.aio ds)

/-- The job as its end leaves it for the next one. -/
structure Job.Closed (job : Job) : Prop where
  st : job.core.st = ⟨0, 0, 0, 0, 0, 0, 0, 0⟩
  curStream : job.core.curStream = ⟨0, 0, 0, 0, false, false⟩
  curTick : job.core.curTick = ⟨0, 0, 0⟩
  recording : job.core.recording = false
  aio : ∀ ds, (job.aio ds).Empty

/-! ## The indices -/

section Core

variable {f : Frame} (c : Core) (esize etype : ℕ)

/-- In the frame's record, the leftovers show in the flag `changed` of an event frame only. -/
theorem indexFrame_withPrev (same : f.validEvent = true →
    (f.Differs esize etype ↔ f.Differs c.prevEsize c.prevEtype)) :
    ∃ esize' etype', (c.withPrev esize etype).indexFrame f =
        ((c.indexFrame f).1.withPrev esize' etype', (c.indexFrame f).2) ∧
      (f.validEvent = true →
        esize' = (c.indexFrame f).1.prevEsize ∧ etype' = (c.indexFrame f).1.prevEtype) ∧
      (f.validEvent = false → esize' = esize ∧ etype' = etype ∧
        (c.indexFrame f).1.prevEsize = c.prevEsize ∧
        (c.indexFrame f).1.prevEtype = c.prevEtype) := by
  unfold Core.indexFrame
  by_cases ok : f.err = 0
  · rw [if_neg (not_not.2 ok), if_neg (not_not.2 ok)]
    cases hist : f.pkt.isMca with
    | true =>
      have hevent : f.validEvent = false := by
        simp [Frame.validEvent, Tespkt.isEvent_of_isMca hist]
      rw [hevent]
      exact ⟨esize, etype, rfl, fun h => (by cases h), fun _ => ⟨rfl, rfl, rfl, rfl⟩⟩
    | false =>
      cases tick : f.pkt.isTick with
      | true =>
        have hevent : f.validEvent = false := by simp [Frame.validEvent, tick]
        rw [hevent]
        exact ⟨esize, etype, rfl, fun h => (by cases h), fun _ => ⟨rfl, rfl, rfl, rfl⟩⟩
      | false =>
        have hevent : f.validEvent = true := by
          rcases Tespkt.isEvent_or_isMca_of_valid (f.valid ok).1 with event | hist'
          · simp [Frame.validEvent, ok, event, tick]
          · rw [hist] at hist'
            cases hist'
        rw [hevent]
        have hflag : ((c.withPrev esize etype).prevEtype ≠
            linearEtype f.pkt.etypePKT f.pkt.etypeTR ∨
            (c.withPrev esize etype).prevEsize ≠ f.pkt.esize) =
          (c.prevEtype ≠ linearEtype f.pkt.etypePKT f.pkt.etypeTR ∨
            c.prevEsize ≠ f.pkt.esize) := propext (same hevent)
        refine ⟨f.pkt.esize % 2 ^ 8, linearEtype f.pkt.etypePKT f.pkt.etypeTR, ?_,
          fun _ => ⟨rfl, rfl⟩, fun h => by cases h⟩
        simp only [Bool.false_eq_true, if_false, hflag]
        rfl
  · have hevent : f.validEvent = false := by simp [Frame.validEvent, ok]
    rw [if_pos ok, if_pos ok, hevent]
    exact ⟨esize, etype, rfl, fun h => (by cases h), fun _ => ⟨rfl, rfl, rfl, rfl⟩⟩

theorem checkStream_withPrev (isTrace : Bool) : (c.withPrev esize etype).checkStream isTrace =
    ((c.checkStream isTrace).1.withPrev esize etype, (c.checkStream isTrace).2) := by
  have hstream : (c.withPrev esize etype).curStream = c.curStream := rfl
  unfold Core.checkStream
  rw [hstream]
  split_ifs <;> rfl

/-- The stream index has no use for the leftovers. -/
theorem indexStream_withPrev (start : ℕ) (fidx : Fidx) :
    (c.withPrev esize etype).indexStream f start fidx =
      ((c.indexStream f start fidx).1.withPrev esize etype, (c.indexStream f start fidx).2) := by
  have extend : ∀ c : Core, (c.withPrev esize etype).extendStream f =
      ((c.extendStream f).1.withPrev esize etype, (c.extendStream f).2) := fun c =>
    checkStream_withPrev { c with
      curStream := { c.curStream with curSize := c.curStream.curSize + f.paylen } } esize etype _
  have hs : (c.withPrev esize etype).startsStream f = c.startsStream f := rfl
  have hc : (c.withPrev esize etype).continuesStream f = c.continuesStream f := rfl
  have hi : (c.withPrev esize etype).interrupted f = (c.interrupted f).withPrev esize etype := by
    have : (c.withPrev esize etype).interruptsStream f = c.interruptsStream f := rfl
    unfold Core.interrupted
    rw [this]
    split_ifs <;> rfl
  by_cases ok : f.err = 0
  · cases starts : c.startsStream f with
    | true =>
      rw [indexStream_of_starts _ _ ok (hs.trans starts), indexStream_of_starts _ _ ok starts]
      have := extend (c.startStream f start)
      exact congrArg (fun p => (p.1, ({ fidx with hdr := true } : Fidx), p.2, false)) this
    | false =>
      cases continues : c.continuesStream f with
      | true =>
        rw [indexStream_of_continues _ _ ok (hc.trans continues),
          indexStream_of_continues _ _ ok continues, extend c]
      | false =>
        by_cases kind : f.pkt.isMca = true ∨ f.pkt.isTraceLong = true
        · rw [indexStream_of_orphan _ _ ok (hs.trans starts) (hc.trans continues) kind,
            indexStream_of_orphan _ _ ok starts continues kind, hi]
          rfl
        · rw [not_or, Bool.not_eq_true, Bool.not_eq_true] at kind
          cases tick : f.pkt.isTick with
          | true =>
            rw [indexStream_of_tick _ _ ok (hs.trans starts) (hc.trans continues) kind.1 kind.2
              tick, indexStream_of_tick _ _ ok starts continues kind.1 kind.2 tick, hi]
            rfl
          | false =>
            rw [indexStream_of_event _ _ ok (hs.trans starts) (hc.trans continues) kind.1 kind.2
              tick, indexStream_of_event _ _ ok starts continues kind.1 kind.2 tick, hi]
            rfl
  · rw [indexStream_of_err ok, indexStream_of_err ok]

end Core

/-! ## The buffers -/

section Buffers

variable {fuel : ℕ} {job job' job₁ : Job}

theorem twins_withCore (twins : JobTwins job job') (c c' : Core) :
    JobTwins { job with core := c } { job' with core := c' } := ⟨twins.queued, twins.aio⟩

theorem twins_queue (twins : JobTwins job job') {ds : Dset} {buf : List UInt8} {failed : Bool}
    (hlen : buf.length ≤ BUFSIZE) (hrun : job.queue fuel ds buf = some (failed, job₁)) :
    ∃ job₁', job'.queue fuel ds buf = some (failed, job₁') ∧ JobTwins job₁ job₁' ∧
      job₁.core = job.core ∧ job₁'.core = job'.core := by
  unfold Job.queue at hrun ⊢
  split at hrun
  · cases hrun
  next rc b hb =>
    obtain ⟨rfl, rfl⟩ := Prod.mk.inj (Option.some.inj hrun)
    obtain ⟨b', hb', htwins⟩ := twins_tryQueueAiobuf (twins.aio ds) hlen hb
    rw [hb']
    refine ⟨_, rfl, ⟨?_, fun d => ?_⟩, rfl, rfl⟩
    · dsimp only
      rw [twins.queued]
    · by_cases hd : d = ds
      · subst hd
        simp only [Function.update_self]
        exact htwins
      · simp only [Function.update_of_ne hd]
        exact twins.aio d

theorem twins_queueDue (twins : JobTwins job job') {due : Option (Dset × List UInt8)}
    {failed : Bool} (hlen : ∀ ds buf, due = some (ds, buf) → buf.length ≤ BUFSIZE)
    (hrun : job.queueDue fuel due = some (failed, job₁)) :
    ∃ job₁', job'.queueDue fuel due = some (failed, job₁') ∧ JobTwins job₁ job₁' ∧
      job₁.core = job.core ∧ job₁'.core = job'.core := by
  cases due with
  | none =>
    obtain ⟨rfl, rfl⟩ := Prod.mk.inj (Option.some.inj hrun)
    exact ⟨job', rfl, twins, rfl, rfl⟩
  | some due => exact twins_queue twins (hlen due.1 due.2 rfl) hrun

theorem twins_flush (dss : List Dset) (twins : JobTwins job job')
    (hrun : job.flush fuel dss = some job₁) :
    ∃ job₁', job'.flush fuel dss = some job₁' ∧ JobTwins job₁ job₁' ∧
      job₁.core = job.core ∧ job₁'.core = job'.core := by
  induction dss generalizing job job' with
  | nil =>
    obtain rfl := Option.some.inj hrun
    exact ⟨job', rfl, twins, rfl, rfl⟩
  | cons ds dss ih =>
    rw [Job.flush] at hrun ⊢
    split at hrun
    · cases hrun
    next b hb =>
      obtain ⟨b', hb', htwins⟩ := twins_flushAiobuf (twins.aio ds) hb
      rw [hb']
      have twins₁ : JobTwins { job with aio := Function.update job.aio ds b }
          { job' with aio := Function.update job'.aio ds b' } := by
        refine ⟨twins.queued, fun d => ?_⟩
        by_cases hd : d = ds
        · subst hd
          simp only [Function.update_self]
          exact htwins
        · simp only [Function.update_of_ne hd]
          exact twins.aio d
      obtain ⟨job₂', hrun', htwins₂, hcore, hcore'⟩ := ih twins₁ hrun
      exact ⟨job₂', hrun', htwins₂, hcore, hcore'⟩

/-- Closing both gives the same report. -/
theorem twins_close (twins : JobTwins job job') (hst : job'.core.st = job.core.st)
    (status : CapStatus) : (job'.close status).1 = (job.close status).1 := by
  have hfiles : (fun ds => (job'.aio ds).closedFile) = fun ds => (job.aio ds).closedFile :=
    funext fun ds => (twins_fields (twins.aio ds)).2.2.1
  have hlost : (fun ds => (job'.aio ds).lost) = fun ds => (job.aio ds).lost :=
    funext fun ds => (twins_fields (twins.aio ds)).2.2.2
  unfold Job.close
  dsimp only
  rw [hst, hfiles, twins.queued, hlost]

/-- Closing a job resets everything but the type and the size of the last event. -/
theorem closed_close (opened : ∀ ds, (job.aio ds).opened = true) (status : CapStatus) :
    (job.close status).2.Closed := by
  refine ⟨rfl, rfl, rfl, rfl, fun ds => ?_⟩
  have hclose : ((job.close status).2.aio ds) = (job.aio ds).closeAiobuf := rfl
  rw [hclose, closeAiobuf, if_neg (by rw [opened ds]; decide)]
  exact ⟨rfl, rfl, rfl, rfl, rfl, rfl⟩

end Buffers

/-! ## Frames -/

section Frames

variable {fuel : ℕ} {env : Env} {f : Frame} {job job' job₁ : Job} {esize etype : ℕ}

theorem twins_finish {report : Report} (twins : JobTwins job job')
    (core : job'.core = job.core.withPrev esize etype)
    (hrun : job.finish fuel env = some (report, job₁)) :
    (∃ job₁', job'.finish fuel env = some (report, job₁')) ∧ job₁.Closed := by
  unfold Job.finish at hrun ⊢
  split at hrun
  · cases hrun
  next job₂ hflush =>
    obtain ⟨job₂', hflush', twins₂, hcore, hcore'⟩ := twins_flush Dset.all twins hflush
    rw [hflush']
    have hlast : job₂'.core = job₂.core.withPrev esize etype := by rw [hcore', hcore, core]
    have hreport := congrArg Prod.fst (Option.some.inj hrun)
    have hstatus : job₂'.core.finalStatus env = job₂.core.finalStatus env := by
      rw [hlast]
      rfl
    have hclose := twins_close twins₂ (by rw [hlast]; rfl) (job₂.core.finalStatus env)
    have hclosed := closed_close (fun ds => (twins₂.aio ds).opened) (job₂.core.finalStatus env)
    dsimp only at hreport hrun ⊢
    rw [Option.some.inj hrun] at hclosed
    rw [hstatus]
    exact ⟨⟨_, congrArg some (Prod.ext (hclose.trans hreport) rfl)⟩, hclosed⟩

theorem twins_fin {report : Report} (twins : JobTwins job job')
    (core : job'.core = job.core.withPrev esize etype)
    (hrun : job.fin fuel = some (report, job₁)) : ∃ job₁', job'.fin fuel = some (report, job₁') := by
  unfold Job.fin at hrun ⊢
  split at hrun
  · cases hrun
  next job₂ hflush =>
    obtain ⟨job₂', hflush', twins₂, hcore, hcore'⟩ := twins_flush Dset.all twins hflush
    rw [hflush']
    have hreport := congrArg Prod.fst (Option.some.inj hrun)
    have hclose := twins_close twins₂ (by rw [hcore', hcore, core]; rfl) .ewrt
    dsimp only at hreport ⊢
    exact ⟨_, congrArg some (Prod.ext (hclose.trans hreport) rfl)⟩

/-- What the handler leaves of two jobs in step: the second core has the leftovers that it had, or
those of the first one once an event frame has come. -/
structure StepTwins (f : Frame) (esize etype : ℕ) (job job₁ job₁' : Job) : Prop where
  twins : JobTwins job₁ job₁'
  recording : job₁.core.recording = (job.core.arrive f).recording
  event : job₁.core.recording = true → f.validEvent = true → job₁'.core = job₁.core
  other : (job₁.core.recording = true → f.validEvent = false) →
    job₁'.core = job₁.core.withPrev esize etype ∧ job₁.core.prevEsize = job.core.prevEsize ∧
      job₁.core.prevEtype = job.core.prevEtype

theorem arrive_withPrev (c : Core) :
    (c.withPrev esize etype).arrive f = (c.arrive f).withPrev esize etype := by
  have hrec : (c.withPrev esize etype).recording = c.recording := rfl
  unfold Core.arrive
  rw [hrec]
  split_ifs <;> rfl

theorem arrive_prev (c : Core) : (c.arrive f).prevEsize = c.prevEsize ∧
    (c.arrive f).prevEtype = c.prevEtype := by
  unfold Core.arrive
  split_ifs <;> exact ⟨rfl, rfl⟩

/-- Two jobs in step handle a frame alike. -/
theorem twins_taskCapPktHn {res : Option Report} (twins : JobTwins job job')
    (core : job'.core = job.core.withPrev esize etype)
    (same : (job.core.arrive f).recording = true → f.validEvent = true →
      (f.Differs esize etype ↔ f.Differs job.core.prevEsize job.core.prevEtype))
    (hrun : taskCapPktHn fuel env f job = some (res, job₁)) :
    ∃ job₁', taskCapPktHn fuel env f job' = some (res, job₁') ∧
      (res = none → StepTwins f esize etype job job₁ job₁') ∧ (res ≠ none → job₁.Closed) := by
  have harrive : job'.core.arrive f = (job.core.arrive f).withPrev esize etype := by
    rw [core, arrive_withPrev]
  have hprev := arrive_prev (f := f) job.core
  by_cases hrec : (job.core.arrive f).recording = true
  · have hcount : ∀ c : Core, (c.withPrev esize etype).count f =
      (c.count f).withPrev esize etype := fun _ => rfl
    obtain ⟨esize', etype', hindex, hevent, hother⟩ :=
      indexFrame_withPrev (f := f) ((job.core.arrive f).count f) esize etype fun he => by
        have := same hrec he
        rwa [← hprev.1, ← hprev.2] at this
    have hframe : (((job.core.arrive f).count f).indexFrame f).1.recording =
        (job.core.arrive f).recording := by
      obtain ⟨_, _, _, h⟩ := indexFrame_frame f ((job.core.arrive f).count f)
      rw [h]
      rfl
    rw [taskCapPktHn_eq fuel env f job hrec] at hrun
    rw [taskCapPktHn_eq fuel env f job' (by rw [harrive]; exact hrec), harrive, hcount, hindex]
    generalize hix : ((job.core.arrive f).count f).indexFrame f = ix at *
    -- the tick record
    obtain ⟨⟨failed₁, j₁⟩, h₁, hrun⟩ := Option.bind_eq_some_iff.1 hrun
    obtain ⟨j₁', h₁', t₁, c₁, c₁'⟩ := twins_queueDue
      (twins_withCore twins ix.1 (ix.1.withPrev esize' etype')) (fun ds buf h => by
        obtain ⟨buf', hb, heq⟩ := Option.map_eq_some_iff.1 h
        obtain ⟨-, rfl⟩ := Prod.mk.inj heq
        rw [indexFrame_due (hix ▸ hb)]
        decide) h₁
    rw [h₁', Option.bind_some]
    dsimp only at hrun c₁ c₁' ⊢
    rw [c₁] at hrun
    rw [c₁', (twins_fields (t₁.aio f.dset)).2.1, indexStream_withPrev]
    have hkept : ∀ start fidx, (ix.1.indexStream f start fidx).1.recording = ix.1.recording ∧
        (ix.1.indexStream f start fidx).1.prevEsize = ix.1.prevEsize ∧
        (ix.1.indexStream f start fidx).1.prevEtype = ix.1.prevEtype := by
      intro start fidx
      obtain ⟨_, _, _, _, _, _, _, _, h⟩ := indexStream_frame f start fidx ix.1
      rw [h]
      exact ⟨rfl, rfl, rfl⟩
    obtain ⟨hrecording, hesize, hetype⟩ := hkept (j₁.aio f.dset).position
      { ix.2.1 with start := (j₁.aio f.dset).position }
    have hdue : ∀ ds buf, (ix.1.indexStream f (j₁.aio f.dset).position
        { ix.2.1 with start := (j₁.aio f.dset).position }).2.2.1 = some (ds, buf) →
        _ := fun ds buf => indexStream_due _ _
    generalize ix.1.indexStream f (j₁.aio f.dset).position
      { ix.2.1 with start := (j₁.aio f.dset).position } = p at *
    -- the stream record
    obtain ⟨⟨failed₂, j₂⟩, h₂, hrun⟩ := Option.bind_eq_some_iff.1 hrun
    obtain ⟨j₂', h₂', t₂, c₂, c₂'⟩ := twins_queueDue
      (twins_withCore t₁ p.1 (p.1.withPrev esize' etype')) (fun ds buf h => by
        rw [(hdue ds buf h).2]
        decide) h₂
    rw [h₂', Option.bind_some]
    dsimp only at hrun c₂ c₂' ⊢
    -- the payload and the frame's record
    obtain ⟨⟨failed₃, j₃⟩, h₃, hrun⟩ := Option.bind_eq_some_iff.1 hrun
    obtain ⟨j₃', h₃', t₃, c₃, c₃'⟩ :=
      twins_queue t₂ (by rw [length_payload]; exact paylen_le f) h₃
    rw [h₃', Option.bind_some]
    obtain ⟨⟨failed₄, j₄⟩, h₄, hrun⟩ := Option.bind_eq_some_iff.1 hrun
    obtain ⟨j₄', h₄', t₄, c₄, c₄'⟩ :=
      twins_queue t₃ (by rw [length_fidx_bytes]; decide) h₄
    rw [h₄', Option.bind_some]
    dsimp only at hrun ⊢
    have hcore : j₄.core = p.1 := c₄.trans (c₃.trans c₂)
    have hcore' : j₄'.core = p.1.withPrev esize' etype' := c₄'.trans (c₃'.trans c₂')
    split_ifs at hrun ⊢ with hend
    · obtain ⟨⟨report, j₅⟩, h₅, heq⟩ := Option.bind_eq_some_iff.1 hrun
      obtain ⟨rfl, rfl⟩ := Prod.mk.inj (Option.some.inj heq)
      obtain ⟨⟨j₅', h₅'⟩, hclosed⟩ := twins_finish t₄ (by rw [hcore', hcore]) h₅
      rw [h₅']
      exact ⟨j₅', rfl, fun h => (by cases h), fun _ => hclosed⟩
    · obtain ⟨rfl, rfl⟩ := Prod.mk.inj (Option.some.inj hrun)
      refine ⟨j₄', rfl, fun _ => ⟨t₄, ?_, fun _ he => ?_, fun hne => ?_⟩, fun h => absurd rfl h⟩
      · rw [hcore, hrecording, hframe]
      · obtain ⟨he₁, he₂⟩ := hevent he
        rw [hcore', hcore, he₁, he₂, ← hesize, ← hetype]
        rfl
      · have he : f.validEvent = false := hne (by rw [hcore, hrecording, hframe]; exact hrec)
        obtain ⟨rfl, rfl, he₁, he₂⟩ := hother he
        rw [hcore', hcore]
        exact ⟨rfl, hesize.trans (he₁.trans hprev.1), hetype.trans (he₂.trans hprev.2)⟩
  · have hidle : (job.core.arrive f).recording = false := Bool.eq_false_iff.2 hrec
    have hidle' : (job'.core.arrive f).recording = false := by rw [harrive]; exact hidle
    unfold taskCapPktHn at hrun ⊢
    dsimp only at hrun ⊢
    rw [if_pos hidle] at hrun
    rw [if_pos hidle']
    obtain ⟨rfl, rfl⟩ := Prod.mk.inj (Option.some.inj hrun)
    refine ⟨_, rfl, fun _ => ⟨⟨twins.queued, twins.aio⟩, rfl, fun h => ?_, fun _ =>
      ⟨harrive, hprev⟩⟩, fun h => absurd rfl h⟩
    exact absurd h hrec

/-- What the handler leaves of one job. -/
theorem taskCapPktHn_closed {res : Option Report} (twins : JobTwins job job)
    (hrun : taskCapPktHn fuel env f job = some (res, job₁)) :
    (res = none → JobTwins job₁ job₁) ∧ (res ≠ none → job₁.Closed) := by
  obtain ⟨job₁', hrun', halike, hclosed⟩ :=
    twins_taskCapPktHn twins (job.core.withPrev_self) (fun _ _ => Iff.rfl) hrun
  rw [hrun] at hrun'
  obtain rfl := (Prod.mk.inj (Option.some.inj hrun')).2
  exact ⟨fun hnone => (halike hnone).twins, hclosed⟩

/-- The flag is the same for equal leftovers. -/
theorem sameFlag_refl (esize etype : ℕ) (fs : List Frame) :
    SameFlag esize etype esize etype fs := by
  induction fs with
  | nil => trivial
  | cons f fs ih =>
    rw [SameFlag]
    split_ifs
    · exact Iff.rfl
    · exact ih

/-- The frames that are recorded of those that are handled from here on. -/
def Core.records (c : Core) (handled : List Frame) : List Frame :=
  if c.recording then handled else recorded handled

theorem records_cons (c : Core) (f : Frame) (rest : List Frame) : c.records (f :: rest) =
    if (c.arrive f).recording then f :: rest else recorded rest := by
  have harrive : (c.arrive f).recording = (c.recording || f.pkt.isTick) := by
    unfold Core.arrive
    cases hrec : c.recording <;> cases htick : f.pkt.isTick <;> simp [hrec]
  rw [harrive, Core.records]
  cases hrec : c.recording <;> cases htick : f.pkt.isTick <;> simp [recorded, htick]

section SameFlag

variable {c c₁ : Core} {esize' etype' : ℕ} {rest : List Frame}

theorem sameFlag_event (hrec : (c.arrive f).recording = true) (event : f.validEvent = true) :
    SameFlag esize' etype' esize etype (c.records (f :: rest)) ↔
      (f.Differs esize etype ↔ f.Differs esize' etype') := by
  rw [records_cons, if_pos hrec, SameFlag, if_pos event]

theorem sameFlag_other (hrec : c₁.recording = (c.arrive f).recording)
    (other : ¬ ((c.arrive f).recording = true ∧ f.validEvent = true)) :
    SameFlag esize' etype' esize etype (c.records (f :: rest)) ↔
      SameFlag esize' etype' esize etype (c₁.records rest) := by
  rw [records_cons, Core.records, hrec]
  cases on : (c.arrive f).recording with
  | false => exact Iff.rfl
  | true =>
    rw [if_pos rfl, if_pos rfl, SameFlag, if_neg fun event => other ⟨on, event⟩]

end SameFlag

/-- Two jobs in step give the same report if the first event frame that is recorded does not tell
their leftovers apart. -/
theorem twins_runJob {fs handled : List Frame} {report : Report} (twins : JobTwins job job')
    (core : job'.core = job.core.withPrev esize etype)
    (same : SameFlag job.core.prevEsize job.core.prevEtype esize etype (job.core.records handled))
    (hrun : runJob fuel env fs job = some (handled, report)) :
    runJob fuel env fs job' = some (handled, report) := by
  induction fs generalizing job job' esize etype handled with
  | nil =>
    obtain ⟨⟨report', job₁⟩, hfin, heq⟩ := Option.map_eq_some_iff.1 hrun
    obtain ⟨rfl, rfl⟩ := Prod.mk.inj heq
    obtain ⟨job₁', hfin'⟩ := twins_fin twins core hfin
    rw [runJob, hfin']
    rfl
  | cons f fs ih =>
    rw [runJob] at hrun ⊢
    split at hrun
    · cases hrun
    next report' job₁ h₁ =>
      obtain ⟨rfl, rfl⟩ := Prod.mk.inj (Option.some.inj hrun)
      obtain ⟨job₁', h₁', -⟩ :=
        twins_taskCapPktHn twins core (fun hrec event => (sameFlag_event hrec event).1 same) h₁
      rw [h₁']
    next job₁ h₁ =>
      obtain ⟨⟨rest, report'⟩, hrest, heq⟩ := Option.map_eq_some_iff.1 hrun
      obtain ⟨rfl, rfl⟩ := Prod.mk.inj heq
      obtain ⟨job₁', h₁', hstep, -⟩ :=
        twins_taskCapPktHn twins core (fun hrec event => (sameFlag_event hrec event).1 same) h₁
      obtain ⟨twins₁, hrecording, event, other⟩ := hstep rfl
      rw [h₁']
      dsimp only
      -- an event frame that is recorded leaves no trace of the leftovers
      by_cases hevent : (job.core.arrive f).recording = true ∧ f.validEvent = true
      · have hcore₁ := event (hrecording.trans hevent.1) hevent.2
        rw [@ih job₁ job₁' job₁.core.prevEsize job₁.core.prevEtype rest twins₁ (by rw [hcore₁]; rfl)
          (sameFlag_refl _ _ _) hrest]
        rfl
      · have hother := other fun hrec => by
          rw [← Bool.not_eq_true]
          exact fun he => hevent ⟨hrecording.symm.trans hrec, he⟩
        have same₁ := (sameFlag_other hrecording hevent).1 same
        rw [← hother.2.1, ← hother.2.2] at same₁
        rw [ih twins₁ hother.1 same₁ hrest]
        rfl

end Frames

end Tesd
