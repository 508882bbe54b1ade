import Tesd.JobTwin

/-!
# The flag of a job's first event frame

Whatever comes of a frame that is recorded, its record is appended to the frame index and stays
there.  Two jobs in step, one of which has leftovers that differ from the first event frame while
the other's do not, append different records for it.
-/

namespace Tesd

open LittleEndian

variable {fuel : ℕ} {env : Env} {f : Frame} {job job' job₁ : Job} {failed : Bool}

/-! ## What is queued for the frame index -/

theorem queue_queued {ds : Dset} {buf : List UInt8}
    (h : job.queue fuel ds buf = some (failed, job₁)) : job₁.core = job.core ∧
      job₁.queued = Function.update job.queued ds (job.queued ds ++ buf) := by
  unfold Job.queue at h
  split at h
  · cases h
  · obtain ⟨-, rfl⟩ := Prod.mk.inj (Option.some.inj h)
    exact ⟨rfl, rfl⟩

theorem queueDue_fidx {due : Option (Dset × List UInt8)}
    (hne : ∀ ds buf, due = some (ds, buf) → ds ≠ .fidx)
    (h : job.queueDue fuel due = some (failed, job₁)) :
    job₁.core = job.core ∧ job₁.queued .fidx = job.queued .fidx := by
  cases due with
  | none =>
    obtain ⟨-, rfl⟩ := Prod.mk.inj (Option.some.inj h)
    exact ⟨rfl, rfl⟩
  | some due =>
    obtain ⟨hcore, hqueued⟩ := queue_queued h
    rw [hqueued, Function.update_of_ne (hne due.1 due.2 rfl).symm]
    exact ⟨hcore, rfl⟩

theorem flush_queued {dss : List Dset} (h : job.flush fuel dss = some job₁) :
    job₁.queued = job.queued := by
  induction dss generalizing job with
  | nil =>
    obtain rfl := Option.some.inj h
    rfl
  | cons ds dss ih =>
    rw [Job.flush] at h
    split at h
    · cases h
    · have hrest := ih h
      exact hrest

theorem finish_queued {report : Report} (h : job.finish fuel env = some (report, job₁)) :
    report.queued = job.queued := by
  unfold Job.finish at h
  split at h
  · cases h
  next job₂ hflush =>
    have hreport := congrArg Prod.fst (Option.some.inj h)
    exact (congrArg Report.queued hreport).symm.trans (flush_queued hflush)

theorem fin_queued {report : Report} (h : job.fin fuel = some (report, job₁)) :
    report.queued = job.queued := by
  unfold Job.fin at h
  split at h
  · cases h
  next job₂ hflush =>
    have hreport := congrArg Prod.fst (Option.some.inj h)
    exact (congrArg Report.queued hreport).symm.trans (flush_queued hflush)

/-- What has been queued for the frame index after a call of the handler. -/
def fidxQueued (res : Option Report) (job₁ : Job) : List UInt8 :=
  match res with
  | none => job₁.queued .fidx
  | some report => report.queued .fidx

/-- A frame that is recorded has its record appended to the frame index: the one that is made for
it, with a place in its data file. -/
theorem taskCapPktHn_record {res : Option Report} (hrec : (job.core.arrive f).recording = true)
    (h : taskCapPktHn fuel env f job = some (res, job₁)) :
    ∃ start, fidxQueued res job₁ = job.queued .fidx ++
        ((((job.core.arrive f).count f).indexFrame f).1.indexStream f start
          { (((job.core.arrive f).count f).indexFrame f).2.1 with start := start }).2.1.bytes ∧
      (res = none → job₁.core.st.frames = (job.core.arrive f).st.frames + 1) := by
  rw [taskCapPktHn_eq fuel env f job hrec] at h
  obtain ⟨curTick, esize, etype, hindex⟩ := indexFrame_frame f ((job.core.arrive f).count f)
  generalize ((job.core.arrive f).count f).indexFrame f = ix at h hindex ⊢
  obtain ⟨⟨failed₁, j₁⟩, h₁, h⟩ := Option.bind_eq_some_iff.1 h
  obtain ⟨c₁, q₁⟩ := queueDue_fidx (fun ds buf hdue => by
    obtain ⟨buf', -, heq⟩ := Option.map_eq_some_iff.1 hdue
    rw [← (Prod.mk.inj heq).1]
    decide) h₁
  dsimp only at h c₁ q₁
  refine ⟨(j₁.aio f.dset).position, ?_⟩
  rw [← c₁]
  have hdue := fun ds buf => @indexStream_due f j₁.core (j₁.aio f.dset).position
    { ix.2.1 with start := (j₁.aio f.dset).position } ds buf
  obtain ⟨ticks, events, traces, hists, curStream, hdr, due, done, hstream⟩ := indexStream_frame f
    (j₁.aio f.dset).position { ix.2.1 with start := (j₁.aio f.dset).position } j₁.core
  rw [hstream] at h hdue ⊢
  obtain ⟨⟨failed₂, j₂⟩, h₂, h⟩ := Option.bind_eq_some_iff.1 h
  obtain ⟨c₂, q₂⟩ := queueDue_fidx (fun ds buf hsome => by
    rcases (hdue ds buf hsome).1 with rfl | rfl <;> decide) h₂
  obtain ⟨⟨failed₃, j₃⟩, h₃, h⟩ := Option.bind_eq_some_iff.1 h
  obtain ⟨c₃, q₃⟩ := queue_queued h₃
  obtain ⟨⟨failed₄, j₄⟩, h₄, h⟩ := Option.bind_eq_some_iff.1 h
  obtain ⟨c₄, q₄⟩ := queue_queued h₄
  dsimp only at h c₂ q₂ c₃ q₃ c₄ q₄
  have hqueued : j₄.queued .fidx = job.queued .fidx ++ Fidx.bytes
      { ix.2.1 with start := (j₁.aio f.dset).position, hdr := hdr } := by
    rw [q₄, Function.update_self, q₃, Function.update_of_ne (dset_ne_index f).1.symm, q₂, q₁]
  split_ifs at h
  · obtain ⟨⟨report, j₅⟩, h₅, heq⟩ := Option.bind_eq_some_iff.1 h
    obtain ⟨rfl, rfl⟩ := Prod.mk.inj (Option.some.inj heq)
    exact ⟨(congrFun (finish_queued h₅) .fidx).trans hqueued, fun hnone => by cases hnone⟩
  · obtain ⟨rfl, rfl⟩ := Prod.mk.inj (Option.some.inj h)
    refine ⟨hqueued, fun _ => ?_⟩
    rw [c₄, c₃, c₂, c₁, hindex]
    rfl

theorem taskCapPktHn_fidx {res : Option Report} (hrec : (job.core.arrive f).recording = true)
    (h : taskCapPktHn fuel env f job = some (res, job₁)) :
    ∃ r : Fidx, r.changed = (((job.core.arrive f).count f).indexFrame f).2.1.changed ∧
      fidxQueued res job₁ = job.queued .fidx ++ r.bytes ∧
      (res = none → job₁.core.st.frames = (job.core.arrive f).st.frames + 1) := by
  obtain ⟨start, hqueued, hframes⟩ := taskCapPktHn_record hrec h
  refine ⟨_, ?_, hqueued, hframes⟩
  obtain ⟨ticks, events, traces, hists, curStream, hdr, due, done, hstream⟩ := indexStream_frame f
    start { (((job.core.arrive f).count f).indexFrame f).2.1 with start := start }
    (((job.core.arrive f).count f).indexFrame f).1
  rw [hstream]

/-- A frame before the first tick leaves the job as it is. -/
theorem taskCapPktHn_of_not_recording {res : Option Report}
    (hrec : ¬ (job.core.arrive f).recording = true)
    (h : taskCapPktHn fuel env f job = some (res, job₁)) : res = none ∧ job₁ = job := by
  rw [arrive_recording, not_or, Bool.not_eq_true, Bool.not_eq_true] at hrec
  rw [taskCapPktHn_of_idle fuel env hrec.1 hrec.2] at h
  obtain ⟨rfl, rfl⟩ := Prod.mk.inj (Option.some.inj h)
  exact ⟨rfl, rfl⟩

/-- What has been queued for the frame index stays. -/
theorem runJob_fidx {fs handled : List Frame} {report : Report}
    (h : runJob fuel env fs job = some (handled, report)) :
    job.queued .fidx <+: report.queued .fidx := by
  induction fs generalizing job handled with
  | nil =>
    obtain ⟨⟨report', job₁⟩, hfin, heq⟩ := Option.map_eq_some_iff.1 h
    obtain ⟨-, rfl⟩ := Prod.mk.inj heq
    exact ⟨[], by rw [List.append_nil, fin_queued hfin]⟩
  | cons f fs ih =>
    have hstep : ∀ res job₁, taskCapPktHn fuel env f job = some (res, job₁) →
        job.queued .fidx <+: fidxQueued res job₁ := by
      intro res job₁ h₁
      by_cases hrec : (job.core.arrive f).recording = true
      · obtain ⟨r, -, hqueued, -⟩ := taskCapPktHn_fidx hrec h₁
        rw [hqueued]
        exact List.prefix_append _ _
      · obtain ⟨rfl, rfl⟩ := taskCapPktHn_of_not_recording hrec h₁
        exact List.prefix_refl _
    rw [runJob] at h
    split at h
    · cases h
    next report' job₁ h₁ =>
      obtain ⟨-, rfl⟩ := Prod.mk.inj (Option.some.inj h)
      exact hstep _ _ h₁
    next job₁ h₁ =>
      obtain ⟨⟨rest, report'⟩, hrest, heq⟩ := Option.map_eq_some_iff.1 h
      obtain ⟨-, rfl⟩ := Prod.mk.inj heq
      exact (hstep _ _ h₁).trans (ih hrest)

/-! ## The flag -/

/-- The flag `changed` of an event frame that is not the first frame. -/
theorem changed_of_event {c : Core} (event : f.validEvent = true) (hframes : 1 < c.st.frames) :
    (c.indexFrame f).2.1.changed = 1 ∧ f.Differs c.prevEsize c.prevEtype ∨
      (c.indexFrame f).2.1.changed = 0 ∧ ¬ f.Differs c.prevEsize c.prevEtype := by
  simp only [Frame.validEvent, Bool.and_eq_true, decide_eq_true_iff, Bool.not_eq_true'] at event
  obtain ⟨⟨ok, event⟩, tick⟩ := event
  have hist : f.pkt.isMca = false := by
    rw [← Bool.not_eq_true]
    intro hist
    rw [Tespkt.isEvent_of_isMca hist] at event
    cases event
  have hchanged : (c.indexFrame f).2.1.changed = if c.st.frames > 1 ∧
      (c.prevEtype ≠ linearEtype f.pkt.etypePKT f.pkt.etypeTR ∨ c.prevEsize ≠ f.pkt.esize) then 1
      else 0 := by
    unfold Core.indexFrame
    rw [if_neg (not_not.2 ok), hist, tick]
    rfl
  rw [hchanged]
  by_cases differs : f.Differs c.prevEsize c.prevEtype
  · exact Or.inl ⟨if_pos ⟨hframes, differs⟩, differs⟩
  · exact Or.inr ⟨if_neg fun h => differs h.2, differs⟩

theorem changed_of_bytes_eq {r r' : Fidx} (h : r.bytes = r'.bytes) :
    leBytes 1 r.changed = leBytes 1 r'.changed := by
  have hinit := (List.append_inj h (by simp)).1
  exact (List.append_inj hinit (by simp)).2

/-- The record of a job's next frame, and what is queued after it. -/
theorem runJob_cons_fidx {fs handled : List Frame} {report : Report}
    (hrec : (job.core.arrive f).recording = true)
    (h : runJob fuel env (f :: fs) job = some (handled, report)) :
    ∃ (r : Fidx) (rest : List UInt8),
      r.changed = (((job.core.arrive f).count f).indexFrame f).2.1.changed ∧
      report.queued .fidx = job.queued .fidx ++ (r.bytes ++ rest) := by
  rw [runJob] at h
  split at h
  · cases h
  next report' job₁ h₁ =>
    obtain ⟨-, rfl⟩ := Prod.mk.inj (Option.some.inj h)
    obtain ⟨r, hchanged, hqueued, -⟩ := taskCapPktHn_fidx hrec h₁
    exact ⟨r, [], hchanged, hqueued.trans (by rw [List.append_nil])⟩
  next job₁ h₁ =>
    obtain ⟨⟨_, report'⟩, hrest, heq⟩ := Option.map_eq_some_iff.1 h
    obtain ⟨-, rfl⟩ := Prod.mk.inj heq
    obtain ⟨r, hchanged, hqueued, -⟩ := taskCapPktHn_fidx hrec h₁
    obtain ⟨rest, hpre⟩ := runJob_fidx hrest
    refine ⟨r, rest, hchanged, ?_⟩
    rw [← hpre, ← List.append_assoc]
    exact congrArg (· ++ rest) hqueued

theorem handled_cons {fs handled : List Frame} {report : Report}
    (h : runJob fuel env (f :: fs) job = some (handled, report)) : ∃ rest, handled = f :: rest := by
  rw [runJob] at h
  split at h
  · cases h
  · obtain ⟨rfl, -⟩ := Prod.mk.inj (Option.some.inj h)
    exact ⟨[], rfl⟩
  · obtain ⟨⟨rest, _⟩, -, heq⟩ := Option.map_eq_some_iff.1 h
    obtain ⟨rfl, -⟩ := Prod.mk.inj heq
    exact ⟨rest, rfl⟩

/-- A frame with an event, recorded by both jobs but with a flag by one of them only. -/
theorem queued_ne_of_event {esize etype : ℕ} {fs handled handled' : List Frame}
    {report report' : Report} (twins : JobTwins job job')
    (core : job'.core = job.core.withPrev esize etype)
    (frames : job.core.recording = true → job.core.st.frames ≠ 0)
    (hrec : (job.core.arrive f).recording = true) (event : f.validEvent = true)
    (differ : ¬ (f.Differs esize etype ↔ f.Differs job.core.prevEsize job.core.prevEtype))
    (hrun : runJob fuel env (f :: fs) job = some (handled, report))
    (hrun' : runJob fuel env (f :: fs) job' = some (handled', report')) :
    report'.queued .fidx ≠ report.queued .fidx := by
  have hrec' : (job'.core.arrive f).recording = true := by
    rw [core, arrive_withPrev]
    exact hrec
  obtain ⟨r, rest, hr, hqueued⟩ := runJob_cons_fidx hrec hrun
  obtain ⟨r', rest', hr', hqueued'⟩ := runJob_cons_fidx hrec' hrun'
  rw [hqueued, hqueued', twins.queued]
  intro heq
  have hbytes := (List.append_inj (List.append_cancel_left heq) (by simp)).1
  have hchanged := changed_of_bytes_eq hbytes
  have tick : f.pkt.isTick = false := by
    simp only [Frame.validEvent, Bool.and_eq_true, Bool.not_eq_true'] at event
    exact event.2
  have hon : job.core.recording = true := by
    rcases (arrive_recording f job.core).1 hrec with h | h
    · exact h
    · rw [tick] at h
      cases h
  have hcount : 1 < (job.core.count f).st.frames := by
    have := frames hon
    show 1 < job.core.st.frames + 1
    omega
  rw [arrive_of_recording hon] at hr
  rw [core, arrive_of_recording (by exact hon)] at hr'
  have hflag := changed_of_event event hcount
  have hflag' : (((job.core.withPrev esize etype).count f).indexFrame f).2.1.changed = 1 ∧
      f.Differs esize etype ∨
      (((job.core.withPrev esize etype).count f).indexFrame f).2.1.changed = 0 ∧
        ¬ f.Differs esize etype :=
    @changed_of_event f ((job.core.withPrev esize etype).count f) event hcount
  rw [← hr] at hflag
  rw [← hr'] at hflag'
  -- the two records have the same flag only if both frames differ or neither does
  rcases hflag with ⟨h, hdiffers⟩ | ⟨h, hsame⟩
  · rcases hflag' with ⟨-, hdiffers'⟩ | ⟨h', -⟩
    · exact differ (iff_of_true hdiffers' hdiffers)
    · rw [h, h'] at hchanged
      exact absurd hchanged (by decide)
  · rcases hflag' with ⟨h', -⟩ | ⟨-, hsame'⟩
    · rw [h, h'] at hchanged
      exact absurd hchanged (by decide)
    · exact differ (iff_of_false hsame' hsame)

/-- Two jobs in step whose leftovers the first event frame tells apart do not queue the same bytes
for the frame index. -/
theorem queued_ne_of_differ {esize etype : ℕ} {fs handled handled' : List Frame}
    {report report' : Report} (twins : JobTwins job job')
    (core : job'.core = job.core.withPrev esize etype)
    (frames : job.core.recording = true → job.core.st.frames ≠ 0)
    (differ : ¬ SameFlag job.core.prevEsize job.core.prevEtype esize etype
      (job.core.records handled))
    (hrun : runJob fuel env fs job = some (handled, report))
    (hrun' : runJob fuel env fs job' = some (handled', report')) :
    report'.queued .fidx ≠ report.queued .fidx := by
  induction fs generalizing job job' esize etype handled handled' with
  | nil =>
    obtain ⟨_, -, heq⟩ := Option.map_eq_some_iff.1 hrun
    obtain ⟨rfl, -⟩ := Prod.mk.inj heq
    exact absurd (by unfold Core.records; split_ifs <;> trivial) differ
  | cons f fs ih =>
    by_cases hevent : (job.core.arrive f).recording = true ∧ f.validEvent = true
    · -- both record the frame, one of them with the flag
      obtain ⟨hrec, event⟩ := hevent
      obtain ⟨_, rfl⟩ := handled_cons hrun
      rw [sameFlag_event hrec event] at differ
      exact queued_ne_of_event twins core frames hrec event differ hrun hrun'
    · have hsame : (job.core.arrive f).recording = true → f.validEvent = true →
          (f.Differs esize etype ↔ f.Differs job.core.prevEsize job.core.prevEtype) :=
        fun hrec event => absurd ⟨hrec, event⟩ hevent
      rw [runJob] at hrun hrun'
      split at hrun
      · cases hrun
      next report₁ job₁ h₁ =>
        obtain ⟨rfl, rfl⟩ := Prod.mk.inj (Option.some.inj hrun)
        have hnone : ¬ SameFlag job.core.prevEsize job.core.prevEtype esize etype
          ((job.core.arrive f).records []) := fun h => differ ((sameFlag_other rfl hevent).2 h)
        exact absurd (by unfold Core.records; split_ifs <;> trivial) hnone
      next job₁ h₁ =>
        obtain ⟨⟨rest, report₁⟩, hrest, heq⟩ := Option.map_eq_some_iff.1 hrun
        obtain ⟨rfl, rfl⟩ := Prod.mk.inj heq
        obtain ⟨job₁', h₁', hstep, -⟩ := twins_taskCapPktHn twins core hsame h₁
        obtain ⟨twins₁, hrecording, -, other⟩ := hstep rfl
        rw [h₁'] at hrun'
        obtain ⟨⟨rest', report₁'⟩, hrest', heq'⟩ := Option.map_eq_some_iff.1 hrun'
        obtain ⟨-, rfl⟩ := Prod.mk.inj heq'
        have hother := other fun hrec => by
          rw [← Bool.not_eq_true]
          exact fun he => hevent ⟨hrecording.symm.trans hrec, he⟩
        rw [sameFlag_other hrecording hevent, ← hother.2.1, ← hother.2.2] at differ
        refine ih twins₁ hother.1 (fun hon => ?_) differ hrest hrest'
        obtain ⟨_, -, -, hframes⟩ := taskCapPktHn_fidx (hrecording.symm.trans hon) h₁
        rw [hframes rfl]
        exact Nat.succ_ne_zero _

end Tesd
