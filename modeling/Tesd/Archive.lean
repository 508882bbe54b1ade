import Tesd.CapTask
import Tesd.Lib.Runs
import Tesd.RefusedFiles

/-!
# The captures that are kept

The capture task and its files, over any number of requests, jobs and lives of the server.  A job
that ends leaves its data files and a file with its statistics, which later requests ask for.
-/

namespace Tesd

open Posix FileSystem

/-- What a request and the job that it starts depend on: also how many bytes of the statistics
`write` gets into their file, and how long the loops around `aio_error` may go on. -/
structure ArchiveWorld extends CapWorld where
  wrote : ℕ
  fuel : ℕ

/-- The task and the files. -/
structure Archive where
  data : CapData
  fs : FileSystem
  /-- what the job in progress depends on, if there is one -/
  job : Option ArchiveWorld

inductive ArchiveEvent
  /-- `task_cap_req_hn` -/
  | request (w : ArchiveWorld) (req : CapRequest)
  /-- `task_cap_pkt_hn` -/
  | frame (f : Frame)
  /-- `task_cap_fin`, and the start of the next server -/
  | restart
  /-- the server is killed with this in the data files of its job, and the next one is started -/
  | crash (left : Dset → List UInt8)

namespace CapData

/-- The files of a job once all has been written to them and they are closed. -/
def save (files : Dset → List UInt8) : List Dset → CapData → FileSystem → FileSystem
  | [], _, fs => fs
  | ds :: dss, d, fs =>
    save files dss d (match d.fildes ds with
      | none => fs
      | some p => fs.put p (files ds))

/-- `s_stats_write`: whether it succeeds. -/
def statsWrite (w : ArchiveWorld) (st : Stats) (d : CapData) (fs : FileSystem) :
    Bool × FileSystem :=
  match fs.openExcl w.rights d.statfilename with
  | (.error _, fs) => (false, fs)
  | (.ok p, fs) => (decide (STAT_LEN ≤ w.wrote), fs.put p (st.bytes.take w.wrote))

/-- The end of a job that `task_cap_pkt_hn` has left as `job`: the statistics are written, and the
files converted if all is ok until now. -/
def conclude (w : ArchiveWorld) (report : Report) (job : Job) (d : CapData) (fs : FileSystem) :
    Env × FileSystem :=
  let core := { job.core with st := report.st }
  let (written, fs) := d.statsWrite w report.st (d.save report.files Dset.all fs)
  if core.finalStatus ⟨written, .ok⟩ = .ok ∧ core.noconvert = false then
    let (rc, fs) := w.conv d fs
    (⟨written, rc⟩, fs)
  else (⟨written, .ok⟩, fs)

end CapData

namespace Archive

/-- The task of a server that has just been started. -/
def start (fs : FileSystem) : Archive := ⟨.init, fs, none⟩

/-- What happens at an event: the reply that is sent, if one is.  A request has to wait while a job
is in progress, and frames are dropped while none is. -/
def handle (e : ArchiveEvent) (a : Archive) : Option (Option CapReply × Archive) :=
  match e, a.job with
  | .request _ _, some _ => none
  | .request w req, none =>
    (taskCapReqHn w.toCapWorld req a.data a.fs).map fun out =>
      (out.reply, ⟨out.data, out.fs, if out.activated then some w else none⟩)
  | .frame _, none => some (none, a)
  | .frame f, some w =>
    match taskCapPktHn w.fuel ⟨true, .ok⟩ f a.data.job with
    | none => none
    | some (none, job) => some (none, { a with data := { a.data with job := job } })
    | some (some report, job) =>
      let (env, fs) := a.data.conclude w report job a.fs
      let status := { job.core with st := report.st }.finalStatus env
      some (some (statsReply status report.st), ⟨a.data.endJob job, fs, none⟩)
  | .restart, none => some (none, start a.fs)
  | .restart, some w =>
    match a.data.job.fin w.fuel with
    | none => none
    | some (report, _) =>
      let (_, fs) := a.data.statsWrite w report.st (a.data.save report.files Dset.all a.fs)
      some (some (statsReply report.status report.st), start fs)
  | .crash left, _ => some (none, start (a.data.save left Dset.all a.fs))

/-- The task and the files after an event. -/
def next (e : ArchiveEvent) (a : Archive) : Option Archive := (a.handle e).map Prod.snd

end Archive

/-! ## The end of a job -/

theorem Job.finish_env (fuel : ℕ) (env env' : Env) (job : Job) :
    job.finish fuel env = (job.finish fuel env').map fun r =>
      ({ r.1 with status := { r.2.core with st := r.1.st }.finalStatus env }, r.2) := by
  unfold finish
  rcases job.flush fuel Dset.all with _ | flushed <;> rfl

theorem bind_eq_map_bind {α β γ : Type*} {x : Option α} {F : α → Option γ} {G : α → Option β}
    {h : β → γ} (heq : ∀ a, F a = (G a).map h) : x.bind F = (x.bind G).map h := by
  cases x with
  | none => rfl
  | some a => exact heq a

/-- What the end of a job depends on shows in the status of its report only. -/
theorem taskCapPktHn_env (fuel : ℕ) (env env' : Env) (f : Frame) (job : Job) :
    taskCapPktHn fuel env f job = (taskCapPktHn fuel env' f job).map fun r =>
      (r.1.map fun report =>
        { report with status := { r.2.core with st := report.st }.finalStatus env }, r.2) := by
  unfold taskCapPktHn
  dsimp only
  split
  · rfl
  refine bind_eq_map_bind fun tidx => bind_eq_map_bind fun sidx => bind_eq_map_bind fun dat =>
    bind_eq_map_bind fun fidx => ?_
  split
  · rw [Job.finish_env fuel env env']
    rcases fidx.2.finish fuel env' with _ | r <;> rfl
  · rfl

namespace Archive

variable {a a' : Archive} {w : ArchiveWorld} {f : Frame} {r : Option CapReply}

/-- The job ends at this frame, with this report and what `conclude` makes of it. -/
structure Ends (w : ArchiveWorld) (f : Frame) (a : Archive) (report : Report) (job : Job)
    (fs : FileSystem) : Prop where
  handled : ∃ env, a.data.conclude w report job a.fs = (env, fs) ∧
    taskCapPktHn w.fuel env f a.data.job = some (some report, job)

/-- At a frame, the job goes on or ends. -/
theorem handle_frame_cases (busy : a.job = some w) (h : a.handle (.frame f) = some (r, a')) :
    (∃ job, (∀ env, taskCapPktHn w.fuel env f a.data.job = some (none, job)) ∧ r = none ∧
        a' = ⟨{ a.data with job := job }, a.fs, some w⟩) ∨
      ∃ report job fs, a.Ends w f report job fs ∧ r = some (statsReply report.status report.st) ∧
        a' = ⟨a.data.endJob job, fs, none⟩ := by
  unfold handle at h
  rw [busy] at h
  dsimp only at h
  have henv := fun env => taskCapPktHn_env w.fuel env ⟨true, .ok⟩ f a.data.job
  split at h
  · cases h
  next job hjob =>
    cases h
    refine Or.inl ⟨job, fun env => ?_, rfl, rfl⟩
    rw [henv env, hjob]
    rfl
  next report job hjob =>
    cases h
    refine Or.inr ⟨{ report with status := _ }, job, _, ⟨_, rfl, ?_⟩, rfl, rfl⟩
    rw [henv, hjob]
    rfl

end Archive

end Tesd
