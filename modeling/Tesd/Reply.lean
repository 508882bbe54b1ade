import Tesd.RecorderRun

/-!
# What a successful reply says about the files

The status of a reply is computed from the counters at the end of the job.  A write that was lost
ends the job, but nothing else: if the requested counts have been reached by then, or if the write
is lost in the final flush, the reply is `TES_CAP_REQ_OK`.
-/

namespace Tesd

namespace Setup

/-- The ticks and events counted in these frames are as many as were requested. -/
def Reached (s : Setup) (handled : List Frame) : Prop :=
  s.minTicks ≤ ((Recorder.init s).run (recorded handled)).core.st.ticks ∧
    s.minEvents ≤ ((Recorder.init s).run (recorded handled)).core.st.events

end Setup

section FinalStatus

variable {env : Env} {c : Core}

theorem finalStatus_eq_ok (env : Env) (captureOnly : c.noconvert = true) :
    c.finalStatus env = .ok ↔
      (c.minTicks ≤ c.st.ticks ∧ c.minEvents ≤ c.st.events) ∧ env.statsWritten = true := by
  unfold Core.finalStatus
  dsimp only
  rw [captureOnly]
  cases env.statsWritten <;> split_ifs <;> simp_all; omega

theorem finalStatus_eq_ewrt (env : Env) (captureOnly : c.noconvert = true) :
    c.finalStatus env = .ewrt ↔ ¬ (c.minTicks ≤ c.st.ticks ∧ c.minEvents ≤ c.st.events) := by
  unfold Core.finalStatus
  dsimp only
  rw [captureOnly]
  cases env.statsWritten <;> split_ifs <;> simp_all <;> omega

end FinalStatus

/-- All files are complete just if no write was lost. -/
theorem files_complete_iff {r : Recorder} {report : Report} (h : Reports True r report) :
    (∀ ds, report.files ds = report.queued ds) ↔ ∀ ds, report.lost ds = false := by
  constructor
  · intro complete ds
    by_contra hl
    rw [Bool.not_eq_false] at hl
    have := h.short ds (Or.inl trivial) hl
    rw [complete ds] at this
    exact Nat.lt_irrefl _ this
  · intro clean ds
    exact (h.whole ds (Or.inl trivial) (clean ds)).1

/-- The job that the handler ends with a reply was recording. -/
theorem arrive_recording_of_ended {fuel : ℕ} {env : Env} {f : Frame} {job job' : Job}
    {report : Report} (h : taskCapPktHn fuel env f job = some (some report, job')) :
    (job.core.arrive f).recording = true := by
  by_contra hrec
  rw [Bool.not_eq_true] at hrec
  unfold taskCapPktHn at h
  dsimp only at h
  rw [if_pos hrec] at h
  cases h

/-- The reply `TES_CAP_REQ_OK` of a capture-only job means that all files are complete just if no
write was lost, or fewer ticks or events were counted than requested, or the statistics could not
be written.  A lost write is reported as `TES_CAP_REQ_EWRT` just in the first two cases. -/
theorem reply_ok_complete_iff (fuel : ℕ) (hf : 4 ≤ fuel) (env : Env) (s : Setup)
    (captureOnly : s.noconvert = true) (fs : List Frame) (f : Frame)
    (fit : AllFit fuel env (fs ++ [f]) (openJob s)) (job job' : Job) (report : Report)
    (underway : handleAll fuel env fs (openJob s) = some job)
    (ended : taskCapPktHn fuel env f job = some (some report, job')) :
    ((report.status = .ok → ∀ ds, report.files ds = report.queued ds) ↔
      (∀ ds, report.lost ds = false) ∨ ¬ s.Reached (fs ++ [f]) ∨ env.statsWritten = false) ∧
    (((∃ ds, report.lost ds = true) → report.status = .ewrt) ↔
      (∀ ds, report.lost ds = false) ∨ ¬ s.Reached (fs ++ [f])) := by
  obtain ⟨fit₀, fit₁⟩ := allFit_append fit
  obtain ⟨hcore, hon, tracks, live, hrec⟩ := handleAll_arrive hf (fun _ : True => fit₀) underway
    (arrive_recording_of_ended ended)
  obtain ⟨res, job₁, h₁, ⟨rfl, -⟩ | ⟨report', rfl, hrep, hstatus, -⟩⟩ :=
    taskCapPktHn_spec hf env hcore hon tracks live fun _ => (fit₁ job underway).1
  · rw [h₁] at ended
    cases ended
  rw [h₁] at ended
  obtain ⟨rfl, rfl⟩ : report' = report ∧ job₁ = job' := by
    simpa only [Option.some.injEq, Prod.mk.injEq] using ended
  have hlast : ((Recorder.init s).run (recorded fs)).record f =
      (Recorder.init s).run (recorded (fs ++ [f])) := by
    rw [hrec, run_append]
    rfl
  rw [hlast] at hrep hstatus
  have hreached : s.Reached (fs ++ [f]) ↔
      ((Recorder.init s).run (recorded (fs ++ [f]))).core.minTicks ≤
          ((Recorder.init s).run (recorded (fs ++ [f]))).core.st.ticks ∧
        ((Recorder.init s).run (recorded (fs ++ [f]))).core.minEvents ≤
          ((Recorder.init s).run (recorded (fs ++ [f]))).core.st.events := by
    rw [(run_frame _ _).2.1, (run_frame _ _).2.2.1]
    rfl
  have hconv := ((run_frame (recorded (fs ++ [f])) (Recorder.init s)).2.2.2.1).trans captureOnly
  have hok := finalStatus_eq_ok env hconv
  have hewrt := finalStatus_eq_ewrt env hconv
  rw [← hstatus, ← hreached] at hok hewrt
  rw [files_complete_iff hrep, hok, hewrt]
  constructor
  · cases env.statsWritten <;> simp [imp_iff_not_or, or_comm]
  · rw [imp_iff_not_or]
    simp

/-- A kernel whose writes all fail, and do so late enough for the final flush to be the first to
see it. -/
def failingKernel : Schedule := ⟨fun _ => ⟨0, none, 0, .failed .ENOSPC⟩, fun _ _ => false⟩

theorem not_reply_ok_complete :
    ¬ ∀ fuel, 4 ≤ fuel → ∀ env s, s.noconvert = true → ∀ fs, (∀ f ∈ fs, f.InBounds) →
      ∀ handled report, runJob fuel env fs (openJob s) = some (handled, report) →
        report.status = .ok → ∀ ds, report.files ds = report.queued ds := by
  intro claim
  have hrun : (runJob 4 smallEnv [.tick, .peak, .tick]
      (openJob { smallJob with sched := fun _ => failingKernel })).map (fun p =>
        (p.2.status, (p.2.files .tdat).length, (p.2.queued .tdat).length)) =
      some (.ok, 0, 48) := by
    decide +kernel
  obtain ⟨⟨handled, report⟩, h, hreport⟩ := Option.map_eq_some_iff.1 hrun
  simp only [Prod.mk.injEq] at hreport
  obtain ⟨hok, hfile, hqueued⟩ := hreport
  have := claim 4 (by decide) smallEnv _ rfl _ (by decide +kernel) handled report h hok .tdat
  rw [this, hqueued] at hfile
  cases hfile

theorem reply_ok_complete_iff_three : ∃ job job' report,
    handleAll 4 smallEnv [.tick, .peak] (openJob smallJob) = some job ∧
    taskCapPktHn 4 smallEnv .tick job = some (some report, job') ∧
    (report.status = .ok → ∀ ds, report.files ds = report.queued ds) := by
  have hrun : ((handleAll 4 smallEnv [.tick, .peak] (openJob smallJob)).bind fun job =>
      taskCapPktHn 4 smallEnv .tick job).map (fun p => p.1.map fun report =>
        Dset.all.all fun ds => !report.lost ds) = some (some true) := by
    decide +kernel
  obtain ⟨⟨res, job'⟩, h, hres⟩ := Option.map_eq_some_iff.1 hrun
  obtain ⟨job, hjob, hlast⟩ := Option.bind_eq_some_iff.1 h
  obtain ⟨report, rfl, hlost⟩ := Option.map_eq_some_iff.1 hres
  refine ⟨job, job', report, hjob, hlast, ?_⟩
  rw [(reply_ok_complete_iff 4 (by decide) smallEnv smallJob rfl [.tick, .peak] .tick
    (allFit_of_inBounds (by decide +kernel) _) job job' report hjob hlast).1]
  exact Or.inl (lost_eq_false hlost)

end Tesd
