import Mathlib.Data.List.TakeWhile
import Tesd.Counters
import Tesd.Reply

/-!
# When a capture ends, and what its reply says

Without I/O errors a capture ends at the first tick that completes what was requested.  The reply's
counters are those of the frames recorded by then, and each index has as many records as they say.
-/

namespace Tesd

open Records

/-- The frame, after those before it, completes what was requested.  The tick that starts the
capture is counted, so there has to be one more than requested. -/
structure Setup.Completes (s : Setup) (before : List Frame) (f : Frame) : Prop where
  tick : f.validTick = true
  ticks : s.minTicks < (recorded (before ++ [f])).countP Frame.validTick
  events : s.minEvents ≤ (counters (recorded before)).events

/-- The handler returned `0` for the frames before, and ended the job at this one. -/
def EndsAt (fuel : ℕ) (env : Env) (s : Setup) (before : List Frame) (f : Frame) (report : Report) :
    Prop :=
  ∃ job job', handleAll fuel env before (openJob s) = some job ∧
    taskCapPktHn fuel env f job = some (some report, job')

/-- What the reply says of the recorded frames and of the indices. -/
structure RepliesTo (env : Env) (s : Setup) (rec : List Frame) (report : Report) : Prop where
  status : env.statsWritten = true → (s.noconvert = false → env.conv = .ok) → report.status = .ok
  ticks : report.st.ticks = rec.countP Frame.validTick
  frames : report.st.frames = rec.length
  framesLost : report.st.framesLost = (rec.map Frame.missed).sum
  traces : (report.files .ridx).length = SIDX_LEN * report.st.traces
  hists : (report.files .midx).length = SIDX_LEN * report.st.hists
  events : report.st.events = report.st.traces +
    ((rec.filter Frame.validShort).map fun f => f.pkt.eventNums).sum
  tidx : (report.files .tidx).length = TIDX_LEN * (report.st.ticks - 1)

/-! ## The frame at which the job is done -/

section Done

variable {f : Frame}

theorem indexStream_done (c : Core) (start : ℕ) (fidx : Fidx) :
    (c.indexStream f start fidx).2.2.2 = true ↔ f.validTick = true ∧
      c.minTicks < (c.indexStream f start fidx).1.st.ticks ∧
      c.minEvents ≤ (c.indexStream f start fidx).1.st.events := by
  by_cases ok : f.err = 0
  · have htick : f.validTick = f.pkt.isTick := by simp [Frame.validTick, ok]
    rw [htick]
    cases tick : f.pkt.isTick with
    | true =>
      have hm : f.pkt.isMca = false := by
        rw [← Bool.not_eq_true]
        intro hm
        rw [Tespkt.isTick_of_isMca hm] at tick
        cases tick
      have ht := Tespkt.isTraceLong_of_isTick tick
      have hs : c.startsStream f = false := by simp [Core.startsStream, hm, ht]
      have hc : c.continuesStream f = false := by simp [Core.continuesStream, hm, ht]
      have hmin : (c.interrupted f).minTicks = c.minTicks ∧
          (c.interrupted f).minEvents = c.minEvents := by
        unfold Core.interrupted
        split_ifs <;> exact ⟨rfl, rfl⟩
      rw [indexStream_of_tick _ _ ok hs hc hm ht tick, hmin.1, hmin.2]
      simp
    | false =>
      simp only [Bool.false_eq_true, false_and, iff_false, Bool.not_eq_true]
      cases hs : c.startsStream f with
      | true => rw [indexStream_of_starts _ _ ok hs]
      | false =>
        cases hc : c.continuesStream f with
        | true => rw [indexStream_of_continues _ _ ok hc]
        | false =>
          by_cases kind : f.pkt.isMca = true ∨ f.pkt.isTraceLong = true
          · rw [indexStream_of_orphan _ _ ok hs hc kind]
          · rw [not_or, Bool.not_eq_true, Bool.not_eq_true] at kind
            rw [indexStream_of_event _ _ ok hs hc kind.1 kind.2 tick]
  · rw [indexStream_of_err ok, Frame.validTick, decide_eq_false ok]
    simp

theorem index_done (r : Recorder) :
    (r.index f).2.2.2 = true ↔ f.validTick = true ∧
      r.core.minTicks < (r.record f).core.st.ticks ∧
      r.core.minEvents ≤ (r.record f).core.st.events := by
  obtain ⟨ct, pe, pt, h⟩ := indexFrame_frame f (r.core.count f)
  rw [Recorder.record_core]
  unfold Recorder.index
  dsimp only
  rw [indexStream_done, h]
  rfl

/-- A valid tick adds no events. -/
theorem events_concat_tick (rec : List Frame) (tick : f.validTick = true) :
    (counters (rec ++ [f])).events = (counters rec).events := by
  rw [Frame.validTick, Bool.and_eq_true, decide_eq_true_iff] at tick
  obtain ⟨ok, tick⟩ := tick
  have plain : f.kind = none := by
    by_contra hkind
    obtain ⟨k, hk⟩ := Option.ne_none_iff_exists'.1 hkind
    have := (not_validTick_of_is (kind_eq_some.1 hk)).1
    simp [Frame.validTick, ok, tick] at this
  have hshort : f.validShort = false := by simp [Frame.validShort, tick]
  have hfinished : ∀ (gs : List Frame) (u : Option (Kind × ℕ)),
      finished (gs ++ [f]) u = finished gs u := by
    intro gs
    induction gs with
    | nil =>
      intro u
      show (follow f u).2 ++ [] = []
      rw [follow_of_plain ok plain]
      rfl
    | cons g gs ih =>
      intro u
      rw [List.cons_append, finished, ih, finished]
  simp [counters, hfinished, shortEvents, hshort]

/-- The recorder is done at the frame that completes what was requested. -/
theorem index_done_iff (s : Setup) {before : List Frame}
    (hrec : recorded (before ++ [f]) = recorded before ++ [f]) :
    (((Recorder.init s).run (recorded before)).index f).2.2.2 = true ↔ s.Completes before f := by
  have hlast : ((Recorder.init s).run (recorded before)).record f =
      (Recorder.init s).run (recorded before ++ [f]) := by
    rw [run_append]
    rfl
  rw [index_done, hlast, (init_counts s _).1, (run_frame _ _).2.1, (run_frame _ _).2.2.1]
  constructor
  · rintro ⟨tick, ticks, events⟩
    rw [events_concat_tick _ tick] at events
    exact ⟨tick, hrec ▸ ticks, events⟩
  · intro h
    refine ⟨h.tick, ?_, ?_⟩
    · have := h.ticks
      rwa [hrec] at this
    · rw [events_concat_tick _ h.tick]
      exact h.events

end Done

/-! ## Jobs -/

theorem recorded_eq_nil {fs : List Frame} :
    recorded fs = [] ↔ ¬ ∃ f ∈ fs, f.pkt.isTick = true := by
  rw [recorded, List.dropWhile_eq_nil_iff]
  simp

/-- Every frame from the first tick on is recorded. -/
theorem recorded_concat_of_tick {f : Frame} (tick : f.pkt.isTick = true) (fs : List Frame) :
    recorded (fs ++ [f]) = recorded fs ++ [f] := by
  by_cases hnil : recorded fs = []
  · rw [recorded_append_of_nil hnil, recorded_cons_of_tick tick, hnil]
    rfl
  · exact recorded_append_of_ne_nil hnil [f]

section Job

variable {fuel : ℕ} {env : Env} {s : Setup}

/-- The capture starts with the first tick. -/
theorem recording_iff (hf : 4 ≤ fuel) {fs : List Frame} {job : Job}
    (h : handleAll fuel env fs (openJob s) = some job) :
    job.core.recording = true ↔ ∃ f ∈ fs, f.pkt.isTick = true := by
  rcases handleAll_spec hf fs (fun he : False => he.elim) h with ⟨hnil, rfl⟩ | ⟨hne, hcore, -⟩
  · have := recorded_eq_nil.1 hnil
    exact ⟨fun hrec => Bool.noConfusion hrec, fun htick => absurd htick this⟩
  · rw [ne_eq, recorded_eq_nil, not_not] at hne
    rw [hcore, (run_frame _ _).1]
    exact ⟨fun _ => hne, fun _ => rfl⟩

/-- One call of the handler: while it returns `0` the request is not complete, and without I/O
errors it returns a report only when it is. -/
theorem taskCapPktHn_completes (hf : 4 ≤ fuel) {before : List Frame} {f : Frame} {job job' : Job}
    {res : Option Report} (underway : handleAll fuel env before (openJob s) = some job)
    (h : taskCapPktHn fuel env f job = some (res, job')) :
    (res = none → ¬ s.Completes before f) ∧
      ∀ report, res = some report → (∀ ds, report.lost ds = false) →
        s.Completes before f ∧
        Reports False ((Recorder.init s).run (recorded (before ++ [f]))) report ∧
        report.status =
          ((Recorder.init s).run (recorded (before ++ [f]))).core.finalStatus env := by
  by_cases hrec : (job.core.arrive f).recording = true
  · obtain ⟨hcore, hon, tracks, live, hrecorded⟩ :=
      handleAll_arrive hf (fun he : False => he.elim) underway hrec
    obtain ⟨res', job₁, h₁, hres⟩ :=
      taskCapPktHn_spec hf env hcore hon tracks live fun he : False => he.elim
    obtain ⟨rfl, rfl⟩ : res' = res ∧ job₁ = job' := by
      simpa only [Option.some.injEq, Prod.mk.injEq] using h₁.symm.trans h
    have hlast : ((Recorder.init s).run (recorded before)).record f =
        (Recorder.init s).run (recorded (before ++ [f])) := by
      rw [hrecorded, run_append]
      rfl
    rw [← index_done_iff s hrecorded]
    rw [hlast] at hres
    rcases hres with ⟨rfl, hdone, -⟩ | ⟨report, rfl, hrep, hstatus, hclean⟩
    · rw [hdone]
      exact ⟨fun _ => Bool.false_ne_true, fun report hsome => by cases hsome⟩
    · refine ⟨fun hnone => (by cases hnone), fun report' hsome clean => ?_⟩
      obtain rfl := Option.some.inj hsome
      exact ⟨hclean clean, hrep, hstatus⟩
  · have hidle : taskCapPktHn fuel env f job =
        some (none, { job with core := job.core.arrive f }) := by
      unfold taskCapPktHn
      dsimp only
      rw [if_pos (Bool.eq_false_iff.2 hrec)]
    obtain ⟨rfl, -⟩ : none = res ∧ { job with core := job.core.arrive f } = job' := by
      simpa only [Option.some.injEq, Prod.mk.injEq] using hidle.symm.trans h
    refine ⟨fun _ completes => hrec ((arrive_recording f _).2 (Or.inr ?_)), fun report hsome => by
      cases hsome⟩
    have tick := completes.tick
    rw [Frame.validTick, Bool.and_eq_true] at tick
    exact tick.2

/-- How a job ends: the handler ends it at some frame, or the frames run out. -/
theorem runJob_cases {fs handled : List Frame} {job : Job} {report : Report}
    (h : runJob fuel env fs job = some (handled, report)) :
    (∃ before f after job₁ job₂, fs = before ++ f :: after ∧ handled = before ++ [f] ∧
        handleAll fuel env before job = some job₁ ∧
        taskCapPktHn fuel env f job₁ = some (some report, job₂)) ∨
      (handled = fs ∧ ∃ job₁, handleAll fuel env fs job = some job₁) := by
  induction fs generalizing job handled with
  | nil =>
    obtain ⟨q, -, heq⟩ := Option.map_eq_some_iff.1 h
    obtain ⟨rfl, rfl⟩ := Prod.mk.inj heq
    exact Or.inr ⟨rfl, job, rfl⟩
  | cons f fs ih =>
    rw [runJob] at h
    split at h
    · cases h
    next report' job' hstep =>
      obtain ⟨rfl, rfl⟩ := Prod.mk.inj (Option.some.inj h)
      exact Or.inl ⟨[], f, fs, job, job', rfl, rfl, rfl, hstep⟩
    next job' hstep =>
      obtain ⟨⟨handled', report'⟩, hrest, heq⟩ := Option.map_eq_some_iff.1 h
      obtain ⟨rfl, rfl⟩ := Prod.mk.inj heq
      have hcons : ∀ before, handleAll fuel env (f :: before) job =
          handleAll fuel env before job' := fun before => by rw [handleAll, hstep]
      rcases ih hrest with ⟨before, g, after, job₁, job₂, rfl, rfl, hall, hend⟩ | ⟨rfl, job₁, hall⟩
      · exact Or.inl ⟨f :: before, g, after, job₁, job₂, rfl, rfl, (hcons _).trans hall, hend⟩
      · exact Or.inr ⟨rfl, job₁, (hcons _).trans hall⟩

/-- The handler returned `0` for each of the frames, one after the other. -/
theorem handleAll_split {before after : List Frame} {f : Frame} {job job' : Job}
    (h : handleAll fuel env (before ++ f :: after) job = some job') :
    ∃ job₁ job₂, handleAll fuel env before job = some job₁ ∧
      taskCapPktHn fuel env f job₁ = some (none, job₂) := by
  induction before generalizing job with
  | nil =>
    rw [List.nil_append, handleAll] at h
    split at h
    next job₂ hstep => exact ⟨job, job₂, rfl, hstep⟩
    · cases h
  | cons g before ih =>
    rw [List.cons_append, handleAll] at h
    split at h
    next job₂ hstep =>
      obtain ⟨job₁, job₃, hall, hend⟩ := ih h
      exact ⟨job₁, job₃, by rw [handleAll, hstep]; exact hall, hend⟩
    · cases h

/-- While the job goes on, the request is not complete. -/
theorem not_completes_of_handleAll (hf : 4 ≤ fuel) {fs : List Frame} {job : Job}
    (h : handleAll fuel env fs (openJob s) = some job) (before : List Frame) (f : Frame)
    (after : List Frame) (hsplit : fs = before ++ f :: after) : ¬ s.Completes before f := by
  subst hsplit
  obtain ⟨job₁, job₂, hall, hstep⟩ := handleAll_split h
  exact (taskCapPktHn_completes hf hall hstep).1 rfl

theorem repliesTo_of_reports {rec : List Frame} {report : Report}
    (reports : Reports False ((Recorder.init s).run rec) report)
    (status : report.status = ((Recorder.init s).run rec).core.finalStatus env)
    (clean : ∀ ds, report.lost ds = false) (ticks : s.minTicks ≤ rec.countP Frame.validTick)
    (events : s.minEvents ≤ (counters rec).events) : RepliesTo env s rec report := by
  obtain ⟨hst, hidx⟩ := init_counts s rec
  have hreport : report.st = counters rec := reports.st.trans hst
  have known : ∀ ds, ds = .ridx ∨ ds = .midx ∨ ds = .tidx → Known False ds := by
    rintro ds (rfl | rfl | rfl) <;> exact Or.inr (by decide)
  have hfile : ∀ ds, ds = .ridx ∨ ds = .midx ∨ ds = .tidx →
      report.files ds = ((Recorder.init s).run rec).files ds := fun ds hds =>
    (files_of_reports reports clean (known ds hds)).1
  refine ⟨fun written converted => ?_, ?_, ?_, ?_, ?_, ?_, ?_, ?_⟩
  · have hmin := run_frame rec (Recorder.init s)
    rw [status]
    unfold Core.finalStatus
    dsimp only
    rw [hst, hmin.2.1, hmin.2.2.1, hmin.2.2.2.1, written]
    have hreached : ¬ ((Recorder.init s).core.minTicks > (counters rec).ticks ∨
        (Recorder.init s).core.minEvents > (counters rec).events) := by
      rw [not_or, Nat.not_lt, Nat.not_lt]
      exact ⟨ticks, events⟩
    rw [if_neg hreached]
    simp only [if_true, true_and]
    split_ifs with hconv
    · exact converted hconv
    · rfl
  · rw [hreport]
    rfl
  · rw [hreport]
    rfl
  · rw [hreport]
    rfl
  · rw [hfile .ridx (Or.inl rfl), hreport]
    exact hidx .trace
  · rw [hfile .midx (Or.inr (Or.inl rfl)), hreport]
    exact hidx .hist
  · rw [hreport]
    rfl
  · rw [hfile .tidx (Or.inr (Or.inr rfl)), hreport, run_files_tidx, List.length_append,
      length_flatMap_of_length length_curTick_bytes]
    have hlen := length_tidxOf rec (Recorder.init s)
    have hzero : (Recorder.init s).core.st.ticks = 0 := rfl
    rw [hzero, Nat.zero_add, Nat.zero_sub, Nat.add_zero] at hlen
    rw [hlen]
    exact Nat.zero_add _

end Job

/-- A capture starts at the first tick.  Without I/O errors it ends exactly at the first frame that
completes what was requested, and with the reply that the recorded frames call for; if there is
none, it goes on through all frames. -/
theorem capture_ends (fuel : ℕ) (hf : 4 ≤ fuel) (env : Env) (s : Setup) (fs : List Frame) :
    (∀ before job, handleAll fuel env before (openJob s) = some job →
      (job.core.recording = true ↔ ∃ f ∈ before, f.pkt.isTick = true)) ∧
    ∃ handled report, runJob fuel env fs (openJob s) = some (handled, report) ∧
      ((∀ ds, report.lost ds = false) →
        (∃ before f after, fs = before ++ f :: after ∧ handled = before ++ [f] ∧
          s.Completes before f ∧
          (∀ before' f' after', before = before' ++ f' :: after' → ¬ s.Completes before' f') ∧
          EndsAt fuel env s before f report ∧ RepliesTo env s (recorded handled) report) ∨
        (handled = fs ∧ (∃ job, handleAll fuel env fs (openJob s) = some job) ∧
          ∀ before f after, fs = before ++ f :: after → ¬ s.Completes before f)) := by
  refine ⟨fun before job h => recording_iff hf h, ?_⟩
  obtain ⟨handled, report, hrun, -⟩ := runJob_spec False hf env s fs False.elim
  refine ⟨handled, report, hrun, fun clean => ?_⟩
  rcases runJob_cases hrun with ⟨before, f, after, job₁, job₂, hfs, hhandled, hall, hend⟩ |
      ⟨hhandled, job₁, hall⟩
  · obtain ⟨completes, reports, status⟩ := (taskCapPktHn_completes hf hall hend).2 report rfl clean
    refine Or.inl ⟨before, f, after, hfs, hhandled, completes, not_completes_of_handleAll hf hall,
      ⟨job₁, job₂, hall, hend⟩, ?_⟩
    have tick := completes.tick
    rw [Frame.validTick, Bool.and_eq_true] at tick
    rw [hhandled]
    refine repliesTo_of_reports reports status clean (Nat.le_of_lt completes.ticks) ?_
    rw [recorded_concat_of_tick tick.2, events_concat_tick _ completes.tick]
    exact completes.events
  · exact Or.inr ⟨hhandled, ⟨job₁, hall⟩, not_completes_of_handleAll hf hall⟩

theorem capture_ends_three : ∃ report,
    runJob 4 smallEnv [.peak, .tick, .peak, .tick, .peak] (openJob smallJob) =
      some ([.peak, .tick, .peak, .tick], report) ∧
    RepliesTo smallEnv smallJob [.tick, .peak, .tick] report := by
  obtain ⟨-, handled, report, hrun, h⟩ := capture_ends 4 (by decide) smallEnv smallJob
    [.peak, .tick, .peak, .tick, .peak]
  have hend : (runJob 4 smallEnv [.peak, .tick, .peak, .tick, .peak] (openJob smallJob)).map
      (fun p => (p.1.length, Dset.all.all fun ds => !p.2.lost ds)) = some (4, true) := by
    decide +kernel
  rw [hrun] at hend
  obtain ⟨hlen, hlost⟩ := Prod.mk.inj (Option.some.inj hend)
  obtain rfl : handled = [.peak, .tick, .peak, .tick] := by
    have hpre := handled_isPrefix (by decide) hrun
    rw [List.prefix_iff_eq_take] at hpre
    exact hpre.trans (congrArg (fun n => List.take n _) hlen)
  have hrec : recorded [.peak, .tick, .peak, .tick] = [.tick, .peak, .tick] := by
    rw [recorded_cons_of_not_tick (by decide +kernel), recorded_cons_of_tick (by decide +kernel)]
  rcases h (lost_eq_false hlost) with ⟨-, -, -, -, -, -, -, -, replies⟩ | ⟨hall, -⟩
  · rw [hrec] at replies
    exact ⟨report, hrun, replies⟩
  · cases congrArg List.length hall

end Tesd
