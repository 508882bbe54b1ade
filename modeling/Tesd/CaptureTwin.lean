import Tesd.CapIdle
import Tesd.CapTask
import Tesd.JobFlag

/-!
# Captures one after another

What the request handler makes of the data that earlier captures left.  A capture that is started
after others goes through the same steps as the first one of a task, but for the flag `changed` in
the record of its first event frame: the type and size of the last event are not reset.
-/

namespace Tesd

open Aiobuf Posix FileSystem

namespace CapData

/-- One capture, from its request to the end of the job at the frame `f`, after the handler has
returned `0` for the frames before. -/
def capture (w : CapWorld) (req : CapRequest) (fs : FileSystem) (fuel : ℕ) (env : Env)
    (before : List Frame) (f : Frame) (d : CapData) : Option CapData :=
  match taskCapReqHn w req d fs with
  | none => none
  | some out =>
    if out.activated then
      match (handleAll fuel env before out.data.job).bind (taskCapPktHn fuel env f) with
      | some (some _, job) => some (out.data.endJob job)
      | _ => none
    else none

/-- The task after one more capture. -/
def Captured (d d' : CapData) : Prop :=
  ∃ w req fs fuel env before f, d.capture w req fs fuel env before f = some d'

/-- The task after some captures. -/
def Used (d : CapData) : Prop := Relation.ReflTransGen Captured .init d

variable {w : CapWorld} {req : CapRequest} {d d' d₁ : CapData} {fs fs₁ : FileSystem}

/-! ## The request -/

/-- The frames of the request are the same. -/
structure SameAsked (d d' : CapData) : Prop where
  base : d'.basefname = d.basefname
  group : d'.measurement = d.measurement
  ovrwtmode : d'.ovrwtmode = d.ovrwtmode
  capmode : d'.capmode = d.capmode
  minTicks : d'.job.core.minTicks = d.job.core.minTicks
  minEvents : d'.job.core.minEvents = d.job.core.minEvents

theorem sameAsked_recv (req : CapRequest) (d d' : CapData) :
    SameAsked (d.recv req) (d'.recv req) := ⟨rfl, rfl, rfl, rfl, rfl, rfl⟩

/-- The data after the checks of a valid request. -/
def checked (group : CStr) (nocapture nooverwrite : Bool) (minTicks : ℕ) (noconvert : Bool)
    (d : CapData) : CapData :=
  { d with measurement := some group, nocapture := nocapture, nooverwrite := nooverwrite }.withCore
    { d.job.core with minTicks := minTicks, noconvert := noconvert }

/-- The checks depend on nothing but the request. -/
theorem isReqValid_same (h : d.isReqValid w = (.ok, d₁)) :
    ∃ group nocapture nooverwrite minTicks noconvert,
      d₁ = d.checked group nocapture nooverwrite minTicks noconvert ∧
      ∀ d', SameAsked d d' →
        d'.isReqValid w = (.ok, d'.checked group nocapture nooverwrite minTicks noconvert) := by
  obtain ⟨ok, rfl⟩ := isReqValid_eq_ok_iff.1 h
  refine ⟨d.measurement.getD [], decide (d.askedTicks = 0), d.ovrwtmode == TES_H5_OVRWT_NONE,
    d.askedTicks, decide (d.askedTicks = 0) && d.capmode != TES_CAP_CONVONLY ||
      d.capmode == TES_CAP_CAPONLY, rfl, fun d' same => ?_⟩
  have hticks : d'.askedTicks = d.askedTicks := by
    rw [askedTicks, same.minTicks, same.minEvents, askedTicks]
  refine isReqValid_eq_ok_iff.2 ⟨⟨?_, ?_, ?_, ?_⟩, ?_⟩
  · exact same.base ▸ ok.base
  · exact same.group ▸ ok.group
  · exact same.ovrwtmode ▸ ok.ovrwtmode
  · rw [same.capmode, hticks]
    exact ok.capmode
  · rw [← same.group, ← same.ovrwtmode, ← same.capmode, ← hticks]
    rfl

/-- So do the names. -/
theorem constructFilenames_same (h : d.constructFilenames w fs = some (.ok, d₁, fs₁)) :
    ∃ stat hdf5, d₁ = d.named stat hdf5 ∧ ∀ d' : CapData, d'.basefname = d.basefname →
      d'.measurement = d.measurement → d'.nocapture = d.nocapture →
        d'.constructFilenames w fs = some (.ok, d'.named stat hdf5, fs₁) := by
  obtain ⟨stat, hdf5, names, rfl⟩ := constructFilenames_ok_iff.1 h
  refine ⟨stat, hdf5, rfl, fun d' base group nocapture => ?_⟩
  rw [← base, ← group, ← nocapture] at names
  exact constructFilenames_ok_iff.2 ⟨stat, hdf5, names, rfl⟩

/-! ## The files -/

theorem twins_opened {b b' : Aiobuf} (empty : b.Empty) (empty' : b'.Empty) (sched : Schedule)
    (data : List UInt8) : Twins (openedAiobuf sched data b) (openedAiobuf sched data b') := by
  have hzone : b.tail < BUFSIZE ∧ b.tail + b.enqueued ≤ BUFSIZE ∧ b.cur < BUFSIZE := by
    rw [empty.tail, empty.enqueued, empty.cur]
    decide
  refine ⟨⟨hzone.1, hzone.2.1, hzone.2.2⟩, sized_of_none rfl, rfl, b'.mem, b'.dbg, ?_, Or.inr ?_⟩
  · unfold openedAiobuf atop
    rw [Aiobuf.mk.injEq]
    simp [empty.size, empty.waiting, empty.enqueued, empty.cur, empty.tail, empty'.size,
      empty'.waiting, empty'.enqueued, empty'.cur, empty'.tail]
  · unfold openedAiobuf
    dsimp only
    rw [empty.tail, empty.enqueued, empty.cur]
    exact ⟨le_rfl, fun i hi => absurd hi (Nat.not_lt_zero i)⟩

/-- A file that has just been opened. -/
theorem follows_opened {b : Aiobuf} (empty : b.Empty) (exact : Prop) (ds : Dset) (sched : Schedule)
    (contents : List UInt8) : Follows exact ds (openedAiobuf sched contents b) [] [] := by
  have hlayout : Layout (openedAiobuf sched contents b) := by
    constructor <;> unfold openedAiobuf <;> dsimp only <;>
      simp [empty.size, empty.waiting, empty.enqueued, empty.cur, empty.tail, BUFSIZE]
  have henqueued : (openedAiobuf sched contents b).enqueued = 0 := empty.enqueued
  refine ⟨zone_of_layout hlayout, sized_of_none rfl, fun _ => ⟨hlayout, fun r hr => (by cases hr),
    fun _ h => absurd henqueued h, fun h => (by cases h)⟩, fun _ _ => ⟨?_, fun _ => ?_, rfl⟩,
    fun _ => ?_, fun _ => rfl⟩
  · unfold openedAiobuf
    simp [empty.waiting, empty.enqueued]
  · unfold openedAiobuf
    simp [empty.waiting, MINSIZE]
  · unfold openedAiobuf content
    simp [empty.size, empty.waiting, empty.enqueued]

/-- Two tasks while they open their files, those of `dss` being left. -/
structure SameOpening (dss : List Dset) (d d' : CapData) : Prop where
  filename : d'.filename = d.filename
  statfilename : d'.statfilename = d.statfilename
  opened : ∀ ds ∉ dss, Twins (d.job.aio ds) (d'.job.aio ds) ∧ d.job.queued ds = [] ∧
    d'.job.queued ds = [] ∧ (∀ exact, Follows exact ds (d.job.aio ds) [] []) ∧
    (d.job.aio ds).lost = false
  empty : ∀ ds ∈ dss, (d.job.aio ds).Empty ∧ (d'.job.aio ds).Empty

/-- The same files are opened. -/
theorem openAll_same {excl : Bool} {dss : List Dset} (nodup : dss.Nodup)
    (same : SameOpening dss d d') (h : d.openAll w excl dss fs = (.ok, d₁, fs₁)) :
    ∃ d₁', d'.openAll w excl dss fs = (.ok, d₁', fs₁) ∧ SameOpening [] d₁ d₁' ∧
      d₁.job.core = d.job.core ∧ d₁'.job.core = d'.job.core := by
  induction dss generalizing d d' fs with
  | nil =>
    obtain ⟨-, rfl, rfl⟩ : CapStatus.ok = .ok ∧ d = d₁ ∧ fs = fs₁ := by
      simpa only [openAll, Prod.mk.injEq] using h
    exact ⟨d', rfl, same, rfl, rfl⟩
  | cons ds dss ih =>
    rw [List.nodup_cons] at nodup
    obtain ⟨c, -, heq⟩ := openAiobuf_eq w excl ds d fs
    obtain ⟨c', -, heq'⟩ := openAiobuf_eq w excl ds d' fs
    rw [same.filename] at heq'
    rw [openAll, heq] at h
    rw [openAll, heq']
    rcases hname : openByName w excl (d.filename ds) fs with ⟨_ | ⟨p, contents⟩, fs₂⟩
    · rw [hname] at h
      dsimp only at h
      split_ifs at h <;> cases h
    · rw [hname] at h
      obtain ⟨empty, empty'⟩ := same.empty ds List.mem_cons_self
      refine @ih ((d.dbgAssert c).withFile ds p (w.sched ds) contents)
        ((d'.dbgAssert c').withFile ds p (w.sched ds) contents) fs₂ nodup.2
        ⟨same.filename, same.statfilename, fun ds' hds' => ?_, fun ds' hds' => ?_⟩ h
      · by_cases hds : ds' = ds
        · subst hds
          rw [withFile_aio_self, withFile_aio_self, withFile_queued_self, withFile_queued_self]
          exact ⟨twins_opened empty empty' _ _, rfl, rfl, fun exact =>
            follows_opened empty exact ds' _ _, rfl⟩
        · rw [withFile_aio_of_ne hds, withFile_aio_of_ne hds, withFile_queued_of_ne hds,
            withFile_queued_of_ne hds]
          exact same.opened ds' fun hmem => (List.mem_cons.1 hmem).elim hds hds'
      · have hne : ds' ≠ ds := fun hds => nodup.1 (hds ▸ hds')
        rw [withFile_aio_of_ne hne, withFile_aio_of_ne hne]
        exact same.empty ds' (List.mem_cons_of_mem ds hds')

/-- The same capture is started. -/
theorem start_same (h : (d.start w fs).activated = true) (d' : CapData)
    (mode : d'.nooverwrite = d.nooverwrite) (same : SameOpening Dset.all d d') :
    (d'.start w fs).activated = true ∧
      SameOpening [] (d.start w fs).data (d'.start w fs).data ∧
      (d.start w fs).data.job.core = d.job.core ∧
      (d'.start w fs).data.job.core = d'.job.core := by
  have nodup : Dset.all.Nodup := by decide
  obtain ⟨c, heq⟩ := openFiles_eq w d.nooverwrite d fs
  obtain ⟨c', heq'⟩ := openFiles_eq w d.nooverwrite d' fs
  unfold start at h ⊢
  rw [mode, heq']
  rw [heq] at h ⊢
  split at h
  next d₁ fs₁ hopen =>
    have same₀ : SameOpening Dset.all (d.dbgAssert c) (d'.dbgAssert c') :=
      ⟨same.filename, same.statfilename, same.opened, same.empty⟩
    obtain ⟨d₁', hopen', same₁, hcore, hcore'⟩ := openAll_same nodup same₀ hopen
    rw [hopen']
    dsimp only at h ⊢
    rw [same₁.statfilename]
    generalize (if fs₁.accessOk w.rights d₁.statfilename = true then
      fs₁.unlink w.rights d₁.statfilename else (none, fs₁)) = q at h ⊢
    split_ifs at h ⊢
    exact ⟨rfl, same₁, hcore, hcore'⟩
  · cases h

/-! ## The handler of a request -/

theorem query_inactive (w : CapWorld) (d : CapData) (fs : FileSystem) :
    (d.query w fs).activated = false := by
  unfold query
  generalize (if d.job.core.noconvert = true then (CapStatus.ok, fs) else w.conv d fs) = r
  dsimp only
  split_ifs
  · rfl
  · split <;> rfl

/-- The data at the start of a capture. -/
def prepared (req : CapRequest) (group : CStr) (nooverwrite : Bool) (minTicks : ℕ)
    (noconvert : Bool) (stat hdf5 : CStr) (d : CapData) : CapData :=
  (((d.dbgAssert !d.job.core.recording).recv req).checked group false nooverwrite minTicks
    noconvert).named stat hdf5

/-- A request that starts a capture starts one in any task, with the same names. -/
theorem taskCapReqHn_started {out : CapOutcome} (h : taskCapReqHn w req d fs = some out)
    (started : out.activated = true) :
    ∃ group nooverwrite minTicks noconvert stat hdf5 fs₁,
      out = (d.prepared req group nooverwrite minTicks noconvert stat hdf5).start w fs₁ ∧
      ∀ d' : CapData, taskCapReqHn w req d' fs =
        some ((d'.prepared req group nooverwrite minTicks noconvert stat hdf5).start w fs₁) := by
  rcases taskCapReqHn_cases h with ⟨rc, d₁, -, -, rfl⟩ | ⟨d₁, hchecks, hrest⟩
  · cases started
  rcases hrest with ⟨rc, d₂, fs₁, -, -, rfl⟩ | ⟨d₂, fs₁, hnames, rfl⟩
  · cases started
  obtain ⟨group, nocapture, nooverwrite, minTicks, noconvert, rfl, hvalid⟩ :=
    isReqValid_same hchecks
  obtain ⟨stat, hdf5, rfl, hnamed⟩ := constructFilenames_same hnames
  have hquery : nocapture = false := by
    rw [← Bool.not_eq_true]
    intro query
    have hnocapture : ((((d.dbgAssert !d.job.core.recording).recv req).checked group nocapture
      nooverwrite minTicks noconvert).named stat hdf5).nocapture = nocapture := rfl
    rw [hnocapture, if_pos query, query_inactive] at started
    cases started
  subst hquery
  refine ⟨group, nooverwrite, minTicks, noconvert, stat, hdf5, fs₁, rfl, fun d' => ?_⟩
  have hvalid' := hvalid _ (sameAsked_recv req (d.dbgAssert !d.job.core.recording)
    (d'.dbgAssert !d'.job.core.recording))
  unfold taskCapReqHn
  dsimp only
  rw [hvalid']
  dsimp only
  rw [hnamed (((d'.dbgAssert !d'.job.core.recording).recv req).checked group false nooverwrite
    minTicks noconvert) rfl rfl rfl]
  rfl

/-- A job that has just been closed is known but for the request and what is not reset. -/
theorem core_of_closed {job : Job} (closed : job.Closed) : job.core =
    { (openJob smallJob).core with
      prevEsize := job.core.prevEsize
      prevEtype := job.core.prevEtype
      minTicks := job.core.minTicks
      minEvents := job.core.minEvents
      noconvert := job.core.noconvert } := by
  obtain ⟨⟨st, curStream, curTick, esize, etype, minTicks, minEvents, noconvert, recording⟩,
    aio, queued⟩ := job
  obtain ⟨rfl, rfl, rfl, rfl, -⟩ := closed
  rfl

/-- A request starts the same capture in both tasks. -/
theorem taskCapReqHn_same {out : CapOutcome} (closed : d.job.Closed) (closed' : d'.job.Closed)
    (h : taskCapReqHn w req d fs = some out) (started : out.activated = true) :
    ∃ s out', Opens s out.data.job ∧ s.prevEsize = d.job.core.prevEsize ∧
      s.prevEtype = d.job.core.prevEtype ∧ taskCapReqHn w req d' fs = some out' ∧
      out'.activated = true ∧ JobTwins out.data.job out'.data.job ∧
      out'.data.job.core =
        out.data.job.core.withPrev d'.job.core.prevEsize d'.job.core.prevEtype := by
  obtain ⟨group, nooverwrite, minTicks, noconvert, stat, hdf5, fs₁, rfl, hsame⟩ :=
    taskCapReqHn_started h started
  have hnone : ∀ ds : Dset, ds ∉ Dset.all → False := fun ds hds => hds ds.mem_all
  obtain ⟨started', same, hcore, hcore'⟩ := start_same started
    (d'.prepared req group nooverwrite minTicks noconvert stat hdf5) rfl ⟨rfl, rfl,
      fun ds hds => (hnone ds hds).elim, fun ds _ => ⟨closed.aio ds, closed'.aio ds⟩⟩
  have hprepared : ∀ d : CapData, (d.prepared req group nooverwrite minTicks noconvert stat
      hdf5).job.core = { d.job.core with
        minTicks := minTicks
        minEvents := req.minEvents.toNat
        noconvert := noconvert } := fun _ => rfl
  have hopened := fun ds => same.opened ds List.not_mem_nil
  refine ⟨⟨minTicks, req.minEvents.toNat, noconvert, w.sched, fun _ _ => 0, d.job.core.prevEsize,
    d.job.core.prevEtype⟩, _, ⟨?_, fun exact ds => ?_, fun _ ds _ => (hopened ds).2.2.2.2⟩, rfl,
    rfl, hsame d', started', ⟨funext fun ds => ?_, fun ds => (hopened ds).1⟩, ?_⟩
  · rw [hcore, hprepared, core_of_closed closed]
    rfl
  · rw [(hopened ds).2.1]
    exact (hopened ds).2.2.2.1 exact
  · exact (hopened ds).2.2.1.trans (hopened ds).2.1.symm
  · rw [hcore, hcore', hprepared, hprepared, core_of_closed closed, core_of_closed closed']
    rfl

/-! ## Histories -/

theorem twins_handleAll {fuel : ℕ} {env : Env} {before : List Frame} {job job₁ : Job}
    (twins : JobTwins job job) (h : handleAll fuel env before job = some job₁) :
    JobTwins job₁ job₁ := by
  induction before generalizing job with
  | nil =>
    obtain rfl := Option.some.inj h
    exact twins
  | cons f before ih =>
    rw [handleAll] at h
    split at h
    next job₂ h₂ => exact ih ((taskCapPktHn_closed twins h₂).1 rfl) h
    · cases h

/-- A capture ends as it began. -/
theorem closed_of_captured (closed : d.job.Closed) (h : Captured d d') : d'.job.Closed := by
  obtain ⟨w, req, fs, fuel, env, before, f, h⟩ := h
  unfold capture at h
  split at h
  · cases h
  next out asked =>
    split_ifs at h with started
    obtain ⟨_, out', -, -, -, hsame, -, twins, -⟩ := taskCapReqHn_same closed closed asked started
    rw [asked] at hsame
    obtain rfl := Option.some.inj hsame
    split at h
    next report job' hrun =>
      obtain rfl := Option.some.inj h
      obtain ⟨job, underway, ended⟩ := Option.bind_eq_some_iff.1 hrun
      exact (taskCapPktHn_closed (twins_handleAll twins underway) ended).2 (Option.some_ne_none _)
    · cases h

theorem closed_init : CapData.init.job.Closed :=
  ⟨rfl, rfl, rfl, rfl, fun _ => ⟨rfl, rfl, rfl, rfl, rfl, rfl⟩⟩

/-- So do any number of them. -/
theorem closed_of_used (used : d.Used) : d.job.Closed := by
  induction used with
  | refl => exact closed_init
  | tail _ h ih => exact closed_of_captured ih h

end CapData

/-- What has been written to a file of a capture is what was queued for it, if nothing was lost. -/
theorem files_eq_queued {fuel : ℕ} (hf : 4 ≤ fuel) {env : Env} {s : Setup} {job : Job}
    (opens : Opens s job) {frames handled : List Frame} {report : Report}
    (run : runJob fuel env frames job = some (handled, report)) {ds : Dset} (hds : ds ≠ .bdat)
    (kept : report.lost ds = false) : report.files ds = report.queued ds := by
  obtain ⟨handled', report', run', ended⟩ := runJob_of_opens False hf env opens frames False.elim
  rw [run] at run'
  obtain ⟨rfl, rfl⟩ := Prod.mk.inj (Option.some.inj run')
  exact (ended.reports.whole ds (Or.inr hds) kept).1

section Isolation

variable {w : CapWorld} {req : CapRequest} {d : CapData} {fs : FileSystem} {out : CapOutcome}
  {fuel : ℕ} {env : Env} {frames handled : List Frame} {report : Report}

/-- A capture after others has the reply and the files of the first capture of a task, if the first
event frame that it records differs in type or size from the last event before just if it differs
from the zeros that a task starts with.  If not, the frame index is another one, unless some write
to it was lost. -/
theorem isolated_iff (hf : 4 ≤ fuel) (used : d.Used) (asked : taskCapReqHn w req d fs = some out)
    (started : out.activated = true)
    (run : runJob fuel env frames out.data.job = some (handled, report)) :
    (SameFlag d.job.core.prevEsize d.job.core.prevEtype 0 0 (recorded handled) →
        ∃ out', taskCapReqHn w req .init fs = some out' ∧ out'.activated = true ∧
          runJob fuel env frames out'.data.job = some (handled, report)) ∧
      ∀ out' handled' report', taskCapReqHn w req .init fs = some out' →
        runJob fuel env frames out'.data.job = some (handled', report') →
        report.lost .fidx = false → report'.lost .fidx = false →
        report'.files .fidx = report.files .fidx →
        SameFlag d.job.core.prevEsize d.job.core.prevEtype 0 0 (recorded handled) := by
  obtain ⟨s, out', opens, hesize, hetype, asked', started', twins, core⟩ :=
    CapData.taskCapReqHn_same (CapData.closed_of_used used) CapData.closed_init asked started
  have hesize' : out.data.job.core.prevEsize = d.job.core.prevEsize := by
    rw [opens.core]
    exact hesize
  have hetype' : out.data.job.core.prevEtype = d.job.core.prevEtype := by
    rw [opens.core]
    exact hetype
  have hidle : out.data.job.core.recording = false := by
    rw [opens.core]
    rfl
  have hrecords : out.data.job.core.records handled = recorded handled := by
    rw [Core.records, hidle]
    rfl
  refine ⟨fun same => ⟨out', asked', started', twins_runJob twins core ?_ run⟩, ?_⟩
  · rw [hesize', hetype', hrecords]
    exact same
  · intro out'' handled' report' asked'' run' kept kept' hfiles
    rw [asked'] at asked''
    obtain rfl := Option.some.inj asked''
    obtain ⟨s', _, opens', -⟩ :=
      CapData.taskCapReqHn_same CapData.closed_init CapData.closed_init asked' started'
    by_contra differ
    rw [← hesize', ← hetype', ← hrecords] at differ
    refine queued_ne_of_differ twins core (fun hrec => ?_) differ run run' ?_
    · rw [hidle] at hrec
      cases hrec
    · rw [← files_eq_queued hf opens run (by decide) kept,
        ← files_eq_queued hf opens' run' (by decide) kept', hfiles]

end Isolation

/-- The task after a capture whose last event is `Frame.peak`. -/
def peakCapture : Option CapData :=
  CapData.init.capture fineWorld (captureOf "a".toList) (oneFile "b".toList []) 4 smallEnv
    [.tick, .peak] .tick

theorem used_peakCapture {d : CapData} (h : peakCapture = some d) : d.Used :=
  Relation.ReflTransGen.single ⟨_, _, _, _, _, _, _, h⟩

/-- The trace that follows is of another type than the last event. -/
theorem isolated_iff_trace : ∃ d out handled report, d.Used ∧
    taskCapReqHn fineWorld (captureOf "a".toList) d (oneFile "b".toList []) = some out ∧
    runJob 4 smallEnv [.tick, .traceHeader, .tick] out.data.job = some (handled, report) ∧
    ∃ out', taskCapReqHn fineWorld (captureOf "a".toList) .init (oneFile "b".toList []) =
        some out' ∧ out'.activated = true ∧
      runJob 4 smallEnv [.tick, .traceHeader, .tick] out'.data.job = some (handled, report) := by
  have hrun : (peakCapture.bind fun d => (taskCapReqHn fineWorld (captureOf "a".toList) d
      (oneFile "b".toList [])).bind fun out => (runJob 4 smallEnv [.tick, .traceHeader, .tick]
        out.data.job).map fun p => (out.activated, decide (SameFlag d.job.core.prevEsize
          d.job.core.prevEtype 0 0 (recorded p.1)))) = some (true, true) := by
    decide +kernel
  obtain ⟨d, hd, hrun⟩ := Option.bind_eq_some_iff.1 hrun
  obtain ⟨out, asked, hrun⟩ := Option.bind_eq_some_iff.1 hrun
  obtain ⟨⟨handled, report⟩, run, heq⟩ := Option.map_eq_some_iff.1 hrun
  obtain ⟨started, hsame⟩ := Prod.mk.inj heq
  exact ⟨d, out, handled, report, used_peakCapture hd, asked, run,
    (isolated_iff (by decide) (used_peakCapture hd) asked started run).1 (of_decide_eq_true hsame)⟩

/-- The event that follows has the type and size of the last one. -/
theorem not_isolated : ¬ ∀ (w : CapWorld) (req : CapRequest) (d : CapData) (fs : FileSystem)
    (out : CapOutcome) (fuel : ℕ) (env : Env) (frames handled : List Frame) (report : Report),
    d.Used → taskCapReqHn w req d fs = some out → out.activated = true →
      runJob fuel env frames out.data.job = some (handled, report) →
      ∃ out' report', taskCapReqHn w req .init fs = some out' ∧ out'.activated = true ∧
        runJob fuel env frames out'.data.job = some (handled, report') ∧
        report'.files = report.files ∧ report'.st = report.st := by
  intro h
  -- the byte with the flag of the second frame's record
  have hused : (peakCapture.bind fun d => (taskCapReqHn fineWorld (captureOf "a".toList) d
      (oneFile "b".toList [])).bind fun out => (runJob 4 smallEnv [.tick, .peak, .tick]
        out.data.job).map fun p => (out.activated, (p.2.files .fidx).getD 30 7)) =
          some (true, 0) := by
    decide +kernel
  have hfresh : ((taskCapReqHn fineWorld (captureOf "a".toList) .init
      (oneFile "b".toList [])).bind fun out => (runJob 4 smallEnv [.tick, .peak, .tick]
        out.data.job).map fun p => (p.2.files .fidx).getD 30 7) = some 1 := by
    decide +kernel
  obtain ⟨d, hd, hused⟩ := Option.bind_eq_some_iff.1 hused
  obtain ⟨out, asked, hused⟩ := Option.bind_eq_some_iff.1 hused
  obtain ⟨⟨handled, report⟩, run, heq⟩ := Option.map_eq_some_iff.1 hused
  obtain ⟨started, hbyte⟩ := Prod.mk.inj heq
  obtain ⟨out', report', asked', -, run', hfiles, -⟩ := h fineWorld _ d _ out 4 smallEnv _ handled
    report (used_peakCapture hd) asked started run
  rw [asked', Option.bind_some, run', Option.map_some] at hfresh
  have hbyte' := Option.some.inj hfresh
  dsimp only at hbyte hbyte'
  rw [hfiles, hbyte] at hbyte'
  cases hbyte'

end Tesd
