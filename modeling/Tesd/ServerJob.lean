import Tesd.Server

/-!
# A capture in the server

From the activation of the capture task to the end of its job: the job is `runJob` over the first of
the packets that are delivered, in order and each once, however they are grouped into wakeups and
whatever the other tasks do meanwhile.
-/

namespace Tesd

/-! ## A job and its frames -/

namespace Archive

variable {a b : Archive} {w : ArchiveWorld}

/-- The job that a request starts, when none is in progress. -/
theorem opens_of_request {req : CapRequest} {rep : Option CapReply} (idle : a.job = none)
    (closed : a.data.job.Closed) (h : a.handle (.request w req) = some (rep, b))
    (started : b.job ≠ none) : b.job = some w ∧ ∃ setup, Opens setup b.data.job := by
  unfold handle at h
  rw [idle] at h
  obtain ⟨out, asked, hout⟩ := Option.map_eq_some_iff.1 h
  obtain ⟨-, rfl⟩ := Prod.mk.inj hout
  have activated : out.activated = true := by
    by_contra hnot
    exact started (if_neg hnot)
  obtain ⟨setup, -, opens, -⟩ := CapData.taskCapReqHn_same closed closed asked activated
  exact ⟨if_pos activated, setup, opens⟩

/-- The job goes on after all frames. -/
structure GoesOn (w : ArchiveWorld) (frames : List Frame) (a b : Archive) : Prop where
  handled : ∀ env, handleAll w.fuel env frames a.data.job = some b.data.job
  job : b.job = some w
  fs : b.fs = a.fs
  sent : Runs.collect next sent (frames.map .frame) a = []

/-- The job has ended at one of the frames, with this report: it has sent its reply, and its files
are left in the tree as the end of the job makes it. -/
structure HasEnded (w : ArchiveWorld) (frames handled : List Frame) (report : Report)
    (a b : Archive) : Prop where
  ran : ∃ (env : Env) (d : CapData) (job : Job),
    runJob w.fuel env frames a.data.job = some (handled, report) ∧
      d = { a.data with job := d.job } ∧ d.conclude w report job a.fs = (env, b.fs)
  job : b.job = none
  sent : Runs.collect next sent (frames.map .frame) a = [statsReply report.status report.st]

/-- Once no job is in progress, frames change nothing. -/
theorem run_dropped (idle : a.job = none) (frames : List Frame) :
    Runs.run next (frames.map .frame) a = some a ∧
      Runs.collect next sent (frames.map .frame) a = [] := by
  obtain ⟨run, replies⟩ := archived_dropped (d := ⟨a, ⟨0, []⟩, []⟩) idle frames
  exact ⟨run, replies.symm⟩

/-- The job in progress goes on, or it ends at one of the frames and the rest of them is dropped. -/
theorem run_frames {frames : List Frame} (busy : a.job = some w)
    (h : Runs.run next (frames.map .frame) a = some b) :
    GoesOn w frames a b ∨ ∃ handled report, HasEnded w frames handled report a b := by
  induction frames generalizing a with
  | nil =>
    obtain rfl := Option.some.inj h
    exact Or.inl ⟨fun _ => rfl, busy, rfl, rfl⟩
  | cons f frames ih =>
    obtain ⟨a', hnext, hrest⟩ := Runs.run_cons h
    have hcollect : Runs.collect next sent ((f :: frames).map .frame) a =
        a.sent (.frame f) ++ Runs.collect next sent (frames.map .frame) a' :=
      Runs.collect_cons hnext
    obtain ⟨⟨r, a'⟩, hhandle, rfl⟩ := Option.map_eq_some_iff.1 hnext
    have hsent : a.sent (.frame f) = r.toList := by
      rw [sent, hhandle]
      cases r <;> rfl
    rw [hsent] at hcollect
    rcases handle_frame_cases busy hhandle with
      ⟨job, hjob, rfl, rfl⟩ | ⟨report, job, fs, ⟨env, hconclude, hjob⟩, rfl, rfl⟩
    · -- the frame is one of several
      rcases ih rfl hrest with goes |
        ⟨handled, report, ⟨env, d, job', hran, hd, hconclude⟩, hend, hs⟩
      · refine Or.inl ⟨fun env => ?_, goes.job, goes.fs, hcollect.trans goes.sent⟩
        rw [handleAll, hjob env]
        exact goes.handled env
      · refine Or.inr ⟨f :: handled, report, ⟨env, d, job', ?_, hd, hconclude⟩, hend,
          hcollect.trans hs⟩
        rw [runJob, hjob env]
        dsimp only at hran ⊢
        rw [hran]
        rfl
    · -- the last one
      obtain ⟨hsame, hnone⟩ := run_dropped (a := ⟨a.data.endJob job, fs, none⟩) rfl frames
      obtain rfl := Option.some.inj (hsame.symm.trans hrest)
      refine Or.inr ⟨[f], report, ⟨env, a.data, job, ?_, rfl, hconclude⟩, rfl, ?_⟩
      · rw [runJob, hjob]
      · rw [hcollect, hnone]
        rfl

end Archive

/-- What the recorded frames leave: their counters, and their payloads, one after the other, in each
data file of good frames to which no write was lost. -/
structure Report.RecordsOf (report : Report) (rec : List Frame) : Prop where
  st : report.st = counters rec
  files : ∀ ds : Dset, ds.IsData → ds ≠ .bdat → report.lost ds = false →
    report.files ds = (rec.filter fun f => f.dset = ds).flatMap Frame.payload

/-- A job that opens as a request leaves it records the frames from the first tick on. -/
theorem records_of_runJob {fuel : ℕ} (hf : 4 ≤ fuel) {env : Env} {s : Setup} {job : Job}
    (opens : Opens s job) {frames handled : List Frame} {report : Report}
    (run : runJob fuel env frames job = some (handled, report)) :
    handled <+: frames ∧ report.RecordsOf (recorded handled) := by
  obtain ⟨handled', report', run', ended⟩ := runJob_of_opens False hf env opens frames False.elim
  rw [run] at run'
  obtain ⟨rfl, rfl⟩ := Prod.mk.inj (Option.some.inj run')
  refine ⟨ended.pre, ended.reports.st.trans (init_counts s (recorded handled)).1,
    fun ds data good kept => ?_⟩
  have fidx : ds ≠ .fidx := by
    rintro rfl
    rcases data with h | h | h | h <;> cases h
  calc report.files ds = report.queued ds := (ended.reports.whole ds (Or.inr good) kept).1
    _ = ((Recorder.init s).run (recorded handled)).files ds :=
      ended.reports.queued ds (Or.inr ⟨good, fidx⟩)
    _ = _ := by
      rw [run_files_data data]
      exact List.nil_append _

/-! ## One session -/

namespace Sys

variable {n fuel : ℕ} {junk : RepData Archive CapReply → UInt8} {s s' : Sys (n + 1) 5 TaskData}
  {a : Action (n + 1) 5 TaskData} {d d₁ : RepData Archive CapReply}

/-- In the session of the task, no client is heard, and nothing but its own packet handler puts it
to sleep. -/
def Undisturbed {nt : ℕ} {δ : Type} (t : Fin nt) (a : Action (n + 1) nt δ) : Prop :=
  Session t a ∧
    match a with
    | .request u _ => u ≠ t
    | .deactivate u _ => u ≠ t
    | _ => True

theorem captures_of_undisturbed (h : Undisturbed capTask a) (s : Sys (n + 1) 5 TaskData) :
    Captures a s := by
  obtain ⟨⟨-, session⟩, undisturbed⟩ := h
  cases a with
  | deliver => trivial
  | advance => trivial
  | request u data => exact fun hu => absurd hu undisturbed
  | activate u => exact fun hu => absurd hu session
  | deactivate u readersOk => exact undisturbed
  | sigHn u sig readersOk => exact session
  | newPkts => trivial

/-- In the session the archive handles frames only, and the task sleeps once its job has ended. -/
structure InSession (d₁ : RepData Archive CapReply) (calls : List Call)
    (s : Sys (n + 1) 5 TaskData) (d : RepData Archive CapReply) (frames : List Frame)
    (kept : List Call) : Prop where
  refines : Refines d₁ calls s d (frames.map .frame) kept
  asleep : s.ended capTask = false → (s.tasks capTask).active = false → d.own.job = none

theorem inSession_step (calls : List Call) (_ : List Slot) (a : Action (n + 1) 5 TaskData)
    (s s' : Sys (n + 1) 5 TaskData)
    (inSession : ∃ d frames kept, InSession d₁ calls s d frames kept)
    (undisturbed : Undisturbed capTask a) (h : step (sTasks (n + 1) junk) fuel a s = some s') :
    ∃ d frames kept, InSession d₁ (calls ++ handled (sTasks (n + 1) junk) fuel capTask a s) s' d
      frames kept := by
  obtain ⟨d, frames, kept, ref, asleep⟩ := inSession
  obtain ⟨d', events, kept', moves⟩ :=
    moves_step ref.at_ (captures_of_undisturbed undisturbed s) h
  have notAsked : ∀ data, a ≠ .request capTask data := by
    rintro data rfl
    exact undisturbed.2 rfl
  obtain ⟨⟨more, rfl⟩, hasleep⟩ := moves.session notAsked
  refine ⟨d', frames ++ more, kept ++ kept', ?_, fun running idle => ?_⟩
  · rw [List.map_append]
    exact ref.move moves
  · exact hasleep running (asleep (moves.all running).1) idle

/-- The activation of the capture task for the job that a request has started. -/
theorem inSession_start (data : (s.tasks capTask).data = .cap d₁)
    (error : (s.tasks capTask).error = false) (busy : d₁.own.job ≠ none)
    (h : step (sTasks (n + 1) junk) fuel (.activate capTask) s = some s') :
    InSession d₁ [] s' d₁ [] [] := by
  rw [step] at h
  split_ifs at h
  obtain rfl := Option.some.inj h
  refine ⟨refines_start ⟨?_, fun _ => ?_, fun _ _ => busy⟩, fun _ idle => ?_⟩
  · rw [setTask_self]
    exact data
  · rw [setTask_self]
    exact error
  · rw [setTask_self] at idle
    cases idle

end Sys

end Tesd
