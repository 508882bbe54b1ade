import Tesd.Recorder

/-!
# Runs of the recorder

What one recorded frame adds to each file and leaves alone in the core, and how a whole job
(`runJob`) relates to the recorder's run over the recorded frames.
-/

namespace Tesd

open Aiobuf

/-! ## What one recorded frame adds to each file -/

/-- The bytes of a record that may be due, as far as they are for this file. -/
def dueFor (ds : Dset) (due : Option (Dset × List UInt8)) : List UInt8 :=
  match due with
  | none => []
  | some (d, buf) => if d = ds then buf else []

section Files

variable (f : Frame) (r : Recorder) {ds : Dset}

theorem append_files (d : Dset) (buf : List UInt8) :
    (r.append d buf).files ds = r.files ds ++ if d = ds then buf else [] := by
  by_cases h : ds = d
  · subst h
    simp [Recorder.append]
  · simp [Recorder.append, Function.update_of_ne h, Ne.symm h]

theorem appendDue_files_dueFor (due : Option (Dset × List UInt8)) :
    (r.appendDue due).files ds = r.files ds ++ dueFor ds due := by
  cases due with
  | none => simp [Recorder.appendDue, dueFor]
  | some due => exact append_files r due.1 due.2

theorem record_files_dueFor :
    (r.record f).files ds = r.files ds ++ dueFor ds (r.tickDue f) ++
      dueFor ds (r.index f).2.2.1 ++ (if f.dset = ds then f.payload else []) ++
      if .fidx = ds then (r.index f).2.1.bytes else [] := by
  rw [Recorder.record_files, append_files, append_files, appendDue_files_dueFor,
    appendDue_files_dueFor]

theorem dueFor_tickDue (h : ds ≠ .tidx) : dueFor ds (r.tickDue f) = [] := by
  unfold Recorder.tickDue dueFor
  cases ((r.core.count f).indexFrame f).2.2 with
  | none => rfl
  | some buf => exact if_neg h.symm

theorem dueFor_index (hr : ds ≠ .ridx) (hm : ds ≠ .midx) : dueFor ds (r.index f).2.2.1 = [] := by
  unfold dueFor
  split
  · rfl
  · rename_i d buf hdue
    refine if_neg fun h => ?_
    rcases (indexStream_due _ _ hdue).1 with rfl | rfl
    · exact hr h.symm
    · exact hm h.symm

theorem record_files_fidx :
    (r.record f).files .fidx = r.files .fidx ++ (r.index f).2.1.bytes := by
  rw [record_files_dueFor, dueFor_tickDue _ _ (by decide), dueFor_index _ _ (by decide) (by decide),
    if_neg (dset_ne_index f).1, if_pos rfl]
  simp

theorem record_files_tidx :
    (r.record f).files .tidx =
      r.files .tidx ++ (((r.core.count f).indexFrame f).2.2).getD [] := by
  rw [record_files_dueFor, dueFor_index _ _ (by decide) (by decide),
    if_neg (dset_ne_index f).2.2.1, if_neg (by decide)]
  unfold Recorder.tickDue dueFor
  cases ((r.core.count f).indexFrame f).2.2 <;> simp

theorem record_files_sidx (h : ds = .ridx ∨ ds = .midx) :
    (r.record f).files ds = r.files ds ++ dueFor ds (r.index f).2.2.1 := by
  have hne : f.dset ≠ ds := by
    rcases h with rfl | rfl
    · exact (dset_ne_index f).2.2.2
    · exact (dset_ne_index f).2.1
  have hne' : ds ≠ .tidx ∧ Dset.fidx ≠ ds := by rcases h with rfl | rfl <;> decide
  rw [record_files_dueFor, dueFor_tickDue _ _ hne'.1, if_neg hne, if_neg hne'.2]
  simp

/-- A data file: neither an index nor the file of a record. -/
def Dset.IsData (ds : Dset) : Prop := ds = .bdat ∨ ds = .mdat ∨ ds = .tdat ∨ ds = .edat

theorem isData_dset : f.dset.IsData := by
  unfold Frame.dset Dset.IsData
  split_ifs <;> simp

theorem record_files_data (h : ds.IsData) :
    (r.record f).files ds = r.files ds ++ if f.dset = ds then f.payload else [] := by
  have hne : ds ≠ .tidx ∧ ds ≠ .ridx ∧ ds ≠ .midx ∧ Dset.fidx ≠ ds := by
    rcases h with rfl | rfl | rfl | rfl <;> decide
  rw [record_files_dueFor, dueFor_tickDue _ _ hne.1, dueFor_index _ _ hne.2.1 hne.2.2.1,
    if_neg hne.2.2.2]
  simp

end Files

/-! ## Runs -/

theorem indexFrame_frame (f : Frame) (c : Core) :
    ∃ curTick prevEsize prevEtype, (c.indexFrame f).1 =
      { c with curTick := curTick, prevEsize := prevEsize, prevEtype := prevEtype } := by
  unfold Core.indexFrame
  split_ifs <;> exact ⟨_, _, _, rfl⟩

theorem checkStream_frame (isTrace : Bool) (c : Core) :
    ∃ events traces hists curStream, (c.checkStream isTrace).1 =
      { c with
        st := { c.st with events := events, traces := traces, hists := hists }
        curStream := curStream } := by
  unfold Core.checkStream
  split_ifs <;> exact ⟨_, _, _, _, rfl⟩

/-- The stream index is the affair of the stream and of the counters of what was recorded. -/
theorem indexStream_frame (f : Frame) (start : ℕ) (fidx : Fidx) (c : Core) :
    ∃ ticks events traces hists curStream hdr due done, c.indexStream f start fidx =
      ({ c with
        st := { c.st with ticks := ticks, events := events, traces := traces, hists := hists }
        curStream := curStream }, { fidx with hdr := hdr }, due, done) := by
  have interrupted : ∃ curStream, c.interrupted f = { c with curStream := curStream } := by
    unfold Core.interrupted
    split_ifs <;> exact ⟨_, rfl⟩
  obtain ⟨cs, hcs⟩ := interrupted
  by_cases ok : f.err = 0
  · cases hs : c.startsStream f with
    | true =>
      rw [indexStream_of_starts start fidx ok hs]
      obtain ⟨events, traces, hists, cs', h⟩ := checkStream_frame f.pkt.isTraceLong
        { c.startStream f start with curStream := { (c.startStream f start).curStream with
          curSize := (c.startStream f start).curStream.curSize + f.paylen } }
      rw [Core.extendStream, h]
      exact ⟨_, events, traces, hists, cs', _, _, _, rfl⟩
    | false =>
      cases hc : c.continuesStream f with
      | true =>
        rw [indexStream_of_continues start fidx ok hc]
        obtain ⟨events, traces, hists, cs', h⟩ := checkStream_frame f.pkt.isTraceLong
          { c with curStream := { c.curStream with curSize := c.curStream.curSize + f.paylen } }
        rw [Core.extendStream, h]
        exact ⟨_, events, traces, hists, cs', _, _, _, rfl⟩
      | false =>
        by_cases kind : f.pkt.isMca = true ∨ f.pkt.isTraceLong = true
        · rw [indexStream_of_orphan start fidx ok hs hc kind, hcs]
          exact ⟨_, _, _, _, _, _, _, _, rfl⟩
        · rw [not_or, Bool.not_eq_true, Bool.not_eq_true] at kind
          cases tick : f.pkt.isTick with
          | true =>
            rw [indexStream_of_tick start fidx ok hs hc kind.1 kind.2 tick, hcs]
            exact ⟨_, _, _, _, _, _, _, _, rfl⟩
          | false =>
            rw [indexStream_of_event start fidx ok hs hc kind.1 kind.2 tick, hcs]
            exact ⟨_, _, _, _, _, _, _, _, rfl⟩
  · rw [indexStream_of_err ok]
    exact ⟨_, _, _, _, _, _, _, _, rfl⟩

/-- What one recorded frame leaves alone in the core, and the frames it counts. -/
theorem record_frame (f : Frame) (r : Recorder) :
    (r.record f).core.recording = r.core.recording ∧
      (r.record f).core.minTicks = r.core.minTicks ∧
      (r.record f).core.minEvents = r.core.minEvents ∧
      (r.record f).core.noconvert = r.core.noconvert ∧
      (r.record f).core.st.frames = r.core.st.frames + 1 ∧
      (r.record f).core.curTick = ((r.core.count f).indexFrame f).1.curTick := by
  rw [Recorder.record_core]
  unfold Recorder.index
  dsimp only
  obtain ⟨ticks, events, traces, hists, cs, hdr, due, done, h⟩ := indexStream_frame f (r.files f.dset).length
    { ((r.core.count f).indexFrame f).2.1 with start := (r.files f.dset).length }
    ((r.core.count f).indexFrame f).1
  obtain ⟨ct, pe, pt, h'⟩ := indexFrame_frame f (r.core.count f)
  rw [h, h']
  exact ⟨rfl, rfl, rfl, rfl, rfl, rfl⟩

theorem run_nil (r : Recorder) : r.run [] = r := rfl

theorem run_cons (f : Frame) (fs : List Frame) (r : Recorder) :
    r.run (f :: fs) = (r.record f).run fs := rfl

theorem run_append (fs gs : List Frame) (r : Recorder) : r.run (fs ++ gs) = (r.run fs).run gs :=
  List.foldl_append

theorem run_frame (fs : List Frame) (r : Recorder) :
    (r.run fs).core.recording = r.core.recording ∧
      (r.run fs).core.minTicks = r.core.minTicks ∧
      (r.run fs).core.minEvents = r.core.minEvents ∧
      (r.run fs).core.noconvert = r.core.noconvert ∧
      (r.run fs).core.st.frames = r.core.st.frames + fs.length := by
  induction fs generalizing r with
  | nil => exact ⟨rfl, rfl, rfl, rfl, rfl⟩
  | cons f fs ih =>
    obtain ⟨h₁, h₂, h₃, h₄, h₅⟩ := ih (r.record f)
    obtain ⟨g₁, g₂, g₃, g₄, g₅, -⟩ := record_frame f r
    rw [run_cons, List.length_cons]
    exact ⟨h₁.trans g₁, h₂.trans g₂, h₃.trans g₃, h₄.trans g₄, by omega⟩

theorem arrive_of_recording {f : Frame} {c : Core} (h : c.recording = true) : c.arrive f = c := by
  rw [Core.arrive, h]
  rfl

/-- Every frame fits when it is handled. -/
def AllFit (fuel : ℕ) (env : Env) : List Frame → Job → Prop
  | [], _ => True
  | f :: fs, job => f.Fits job ∧
    ∀ job', taskCapPktHn fuel env f job = some (none, job') → AllFit fuel env fs job'

theorem allFit_of_inBounds {fuel : ℕ} {env : Env} {fs : List Frame}
    (inBounds : ∀ f ∈ fs, f.InBounds) (job : Job) : AllFit fuel env fs job := by
  induction fs generalizing job with
  | nil => trivial
  | cons f fs ih =>
    exact ⟨Or.inl (inBounds f (by simp)), fun job' _ =>
      ih (fun g hg => inBounds g (List.mem_cons_of_mem _ hg)) job'⟩

/-- How a job ends: in the handler, or in `task_cap_fin` when no more frames come. -/
structure Ended (exact : Prop) (env : Env) (fs handled : List Frame) (r : Recorder)
    (report : Report) : Prop where
  pre : handled <+: fs
  reports : Reports exact r report
  status : report.status = r.core.finalStatus env ∨ handled = fs ∧ report.status = .ewrt

/-- A job that is recording, from any point on. -/
theorem runJob_of_recording {exact : Prop} {fuel : ℕ} (hf : 4 ≤ fuel) (env : Env) (fs : List Frame)
    {job : Job} {r : Recorder} (hcore : job.core = r.core) (hrec : r.core.recording = true)
    (tracks : Tracks exact job r) (live : Live exact job) (fit : exact → AllFit fuel env fs job) :
    ∃ handled report, runJob fuel env fs job = some (handled, report) ∧
      Ended exact env fs handled (r.run handled) report := by
  induction fs generalizing job r with
  | nil =>
    obtain ⟨report, job', h, hrep, hstatus⟩ := fin_spec hf hcore tracks
    exact ⟨[], report, by rw [runJob, h]; rfl, ⟨List.nil_prefix, hrep, Or.inr ⟨rfl, hstatus⟩⟩⟩
  | cons f fs ih =>
    obtain ⟨res, job', h, ⟨rfl, -, hcore', tracks', live'⟩ | ⟨report, rfl, hrep, hstatus, -⟩⟩ :=
      taskCapPktHn_spec hf env (by rw [hcore]; exact arrive_of_recording hrec) hrec tracks live
        fun he => (fit he).1
    · obtain ⟨handled, report, hrun, hend⟩ := ih hcore' ((record_frame f r).1.trans hrec) tracks'
        live' fun he => (fit he).2 _ h
      refine ⟨f :: handled, report, by rw [runJob, h]; dsimp only; rw [hrun]; rfl,
        (List.prefix_cons_inj f).2 hend.pre, hend.reports, ?_⟩
      rcases hend.status with hs | ⟨hall, hs⟩
      · exact Or.inl hs
      · exact Or.inr ⟨by rw [hall], hs⟩
    · exact ⟨[f], report, by rw [runJob, h], ⟨by simp, hrep, Or.inl hstatus⟩⟩

theorem open_tracks (exact : Prop) (s : Setup) : Tracks exact (openJob s) (Recorder.init s) :=
  fun _ => ⟨zone_of_layout (fresh_inv _ _).toLayout, sized_of_none rfl, fun _ => fresh_inv _ _,
    fun _ _ => fresh_ready _ _, fun _ => fresh_content _ _, fun _ => rfl⟩

theorem open_live (exact : Prop) (s : Setup) : Live exact (openJob s) := fun _ _ => rfl

/-- A job that starts like `openJob s`, whatever its files and its memory hold. -/
structure Opens (s : Setup) (job : Job) : Prop where
  core : job.core = (openJob s).core
  tracks : ∀ exact, Tracks exact job (Recorder.init s)
  live : ∀ exact, Live exact job

theorem opens_openJob (s : Setup) : Opens s (openJob s) :=
  ⟨rfl, fun exact => open_tracks exact s, fun exact => open_live exact s⟩

/-- Before the first tick, a frame is ignored. -/
theorem taskCapPktHn_of_idle (fuel : ℕ) (env : Env) {f : Frame} {job : Job}
    (idle : job.core.recording = false) (tick : f.pkt.isTick = false) :
    taskCapPktHn fuel env f job = some (none, job) := by
  have harrive : job.core.arrive f = job.core := by
    rw [Core.arrive, tick, Bool.and_false]
    rfl
  unfold taskCapPktHn
  dsimp only
  rw [harrive, if_pos idle]

theorem recorded_cons_of_tick {f : Frame} (tick : f.pkt.isTick = true) (fs : List Frame) :
    recorded (f :: fs) = f :: fs := by
  rw [recorded, List.dropWhile_cons_of_neg (by simp [tick])]

theorem recorded_cons_of_not_tick {f : Frame} (tick : f.pkt.isTick = false) (fs : List Frame) :
    recorded (f :: fs) = recorded fs := by
  rw [recorded, List.dropWhile_cons_of_pos (by simp [tick])]
  rfl

/-- A whole job ends, and its report is about the recorder's run over the recorded frames. -/
theorem runJob_of_opens (exact : Prop) {fuel : ℕ} (hf : 4 ≤ fuel) (env : Env) {s : Setup} {job : Job}
    (opens : Opens s job) (fs : List Frame) (fit : exact → AllFit fuel env fs job) :
    ∃ handled report, runJob fuel env fs job = some (handled, report) ∧
      Ended exact env fs handled ((Recorder.init s).run (recorded handled)) report := by
  have hidle : job.core.recording = false := by
    rw [opens.core]
    rfl
  induction fs with
  | nil =>
    obtain ⟨job', h, -, hclose⟩ := flush_all_spec hf (r := { Recorder.init s with
      core := (openJob s).core }) opens.core (opens.tracks exact)
    have hrep := (hclose .ewrt).1
    refine ⟨[], _, by rw [runJob, Job.fin, h]; rfl, ⟨List.nil_prefix, ⟨hrep.st, hrep.queued,
      hrep.whole, hrep.short⟩, Or.inr ⟨rfl, rfl⟩⟩⟩
  | cons f fs ih =>
    cases tick : f.pkt.isTick with
    | false =>
      obtain ⟨handled, report, hrun, hend⟩ := ih fun he =>
        (fit he).2 _ (taskCapPktHn_of_idle fuel env hidle tick)
      refine ⟨f :: handled, report, ?_, ?_⟩
      · rw [runJob, taskCapPktHn_of_idle fuel env hidle tick]
        dsimp only
        rw [hrun]
        rfl
      · rw [recorded_cons_of_not_tick tick]
        refine ⟨(List.prefix_cons_inj f).2 hend.pre, hend.reports, ?_⟩
        rcases hend.status with hs | ⟨hall, hs⟩
        · exact Or.inl hs
        · exact Or.inr ⟨by rw [hall], hs⟩
    | true =>
      have harrive : job.core.arrive f = (Recorder.init s).core := by
        rw [opens.core, Core.arrive, tick]
        rfl
      obtain ⟨res, job', h, ⟨rfl, -, hcore', tracks', live'⟩ | ⟨report, rfl, hrep, hstatus, -⟩⟩ :=
        taskCapPktHn_spec hf env harrive rfl (opens.tracks exact) (opens.live exact)
          fun he => (fit he).1
      · obtain ⟨handled, report, hrun, hend⟩ := runJob_of_recording hf env fs hcore'
          (record_frame f _).1 tracks' live' fun he => (fit he).2 _ h
        refine ⟨f :: handled, report, by rw [runJob, h]; dsimp only; rw [hrun]; rfl, ?_⟩
        rw [recorded_cons_of_tick tick, run_cons]
        refine ⟨(List.prefix_cons_inj f).2 hend.pre, hend.reports, ?_⟩
        rcases hend.status with hs | ⟨hall, hs⟩
        · exact Or.inl hs
        · exact Or.inr ⟨by rw [hall], hs⟩
      · refine ⟨[f], report, by rw [runJob, h], ?_⟩
        rw [recorded_cons_of_tick tick]
        exact ⟨by simp, hrep, Or.inl hstatus⟩

theorem runJob_spec (exact : Prop) {fuel : ℕ} (hf : 4 ≤ fuel) (env : Env) (s : Setup)
    (fs : List Frame) (fit : exact → AllFit fuel env fs (openJob s)) :
    ∃ handled report, runJob fuel env fs (openJob s) = some (handled, report) ∧
      Ended exact env fs handled ((Recorder.init s).run (recorded handled)) report :=
  runJob_of_opens exact hf env (opens_openJob s) fs fit

theorem handled_isPrefix {fuel : ℕ} (hf : 4 ≤ fuel) {env : Env} {s : Setup} {fs handled : List Frame}
    {report : Report} (h : runJob fuel env fs (openJob s) = some (handled, report)) :
    handled <+: fs := by
  obtain ⟨handled', report', h', hend⟩ := runJob_spec False hf env s fs False.elim
  obtain ⟨rfl, rfl⟩ := Prod.mk.inj (Option.some.inj (h'.symm.trans h))
  exact hend.pre

/-! ## The job between two frames -/

section Underway

variable {exact : Prop} {fuel : ℕ} {env : Env}

theorem allFit_append {fs gs : List Frame} {job : Job} (fit : AllFit fuel env (fs ++ gs) job) :
    AllFit fuel env fs job ∧
      ∀ job', handleAll fuel env fs job = some job' → AllFit fuel env gs job' := by
  induction fs generalizing job with
  | nil =>
    refine ⟨trivial, fun job' h => ?_⟩
    obtain rfl := Option.some.inj h
    exact fit
  | cons f fs ih =>
    refine ⟨⟨fit.1, fun job' h => (ih (fit.2 job' h)).1⟩, fun job' h => ?_⟩
    rw [handleAll] at h
    split at h
    · rename_i job₁ h₁
      exact (ih (fit.2 job₁ h₁)).2 job' h
    · cases h

theorem recorded_append_of_nil {fs : List Frame} (h : recorded fs = []) (gs : List Frame) :
    recorded (fs ++ gs) = recorded gs := by
  unfold recorded at h ⊢
  rw [List.dropWhile_append, h]
  rfl

theorem recorded_append_of_ne_nil {fs : List Frame} (h : recorded fs ≠ []) (gs : List Frame) :
    recorded (fs ++ gs) = recorded fs ++ gs := by
  unfold recorded at h ⊢
  rw [List.dropWhile_append, if_neg (by rwa [List.isEmpty_iff])]

theorem handleAll_of_recording (hf : 4 ≤ fuel) (fs : List Frame) {job job' : Job} {r : Recorder}
    (hcore : job.core = r.core) (hrec : r.core.recording = true) (tracks : Tracks exact job r)
    (live : Live exact job) (fit : exact → AllFit fuel env fs job)
    (h : handleAll fuel env fs job = some job') :
    job'.core = (r.run fs).core ∧ Tracks exact job' (r.run fs) ∧ Live exact job' := by
  induction fs generalizing job r with
  | nil =>
    obtain rfl := Option.some.inj h
    exact ⟨hcore, tracks, live⟩
  | cons f fs ih =>
    obtain ⟨res, job₁, h₁, hres⟩ := taskCapPktHn_spec hf env
      (by rw [hcore]; exact arrive_of_recording hrec) hrec tracks live fun he => (fit he).1
    rw [handleAll, h₁] at h
    rcases hres with ⟨rfl, -, hcore₁, tracks₁, live₁⟩ | ⟨report, rfl, -⟩
    · exact ih hcore₁ ((record_frame f r).1.trans hrec) tracks₁ live₁ (fun he => (fit he).2 _ h₁) h
    · cases h

/-- The job between two frames is either still waiting for a tick, or follows the recorder. -/
theorem handleAll_spec (hf : 4 ≤ fuel) {s : Setup} (fs : List Frame) {job : Job}
    (fit : exact → AllFit fuel env fs (openJob s))
    (h : handleAll fuel env fs (openJob s) = some job) :
    (recorded fs = [] ∧ job = openJob s) ∨
      (recorded fs ≠ [] ∧ job.core = ((Recorder.init s).run (recorded fs)).core ∧
        Tracks exact job ((Recorder.init s).run (recorded fs)) ∧ Live exact job) := by
  induction fs with
  | nil => exact Or.inl ⟨rfl, (Option.some.inj h).symm⟩
  | cons f fs ih =>
    cases tick : f.pkt.isTick with
    | false =>
      have hidle : taskCapPktHn fuel env f (openJob s) = some (none, openJob s) :=
        taskCapPktHn_of_idle fuel env rfl tick
      rw [handleAll, hidle] at h
      rw [recorded_cons_of_not_tick tick]
      exact ih (fun he => (fit he).2 _ hidle) h
    | true =>
      have harrive : (openJob s).core.arrive f = (Recorder.init s).core := by
        rw [Core.arrive, tick]
        rfl
      obtain ⟨res, job₁, h₁, hres⟩ := taskCapPktHn_spec hf env harrive rfl (open_tracks exact s)
        (open_live exact s) fun he => (fit he).1
      rw [handleAll, h₁] at h
      rw [recorded_cons_of_tick tick]
      rcases hres with ⟨rfl, -, hcore₁, tracks₁, live₁⟩ | ⟨report, rfl, -⟩
      · exact Or.inr ⟨by simp, handleAll_of_recording hf fs hcore₁ (record_frame f _).1 tracks₁
          live₁ (fun he => (fit he).2 _ h₁) h⟩
      · cases h

/-- The same, as the next frame that is recorded finds it. -/
theorem handleAll_arrive (hf : 4 ≤ fuel) {s : Setup} {fs : List Frame} {job : Job}
    (fit : exact → AllFit fuel env fs (openJob s))
    (h : handleAll fuel env fs (openJob s) = some job) {f : Frame}
    (hrec : (job.core.arrive f).recording = true) :
    job.core.arrive f = ((Recorder.init s).run (recorded fs)).core ∧
      ((Recorder.init s).run (recorded fs)).core.recording = true ∧
      Tracks exact job ((Recorder.init s).run (recorded fs)) ∧ Live exact job ∧
      recorded (fs ++ [f]) = recorded fs ++ [f] := by
  have hon : ((Recorder.init s).run (recorded fs)).core.recording = true := (run_frame _ _).1
  rcases handleAll_spec hf fs fit h with ⟨hnil, rfl⟩ | ⟨hne, hcore, tracks, live⟩
  · have tick : f.pkt.isTick = true := by
      rcases (arrive_recording f _).1 hrec with hr | ht
      · cases hr
      · exact ht
    rw [recorded_append_of_nil hnil, recorded_cons_of_tick tick, hnil]
    refine ⟨?_, rfl, open_tracks exact s, open_live exact s, rfl⟩
    rw [Core.arrive, tick]
    rfl
  · refine ⟨?_, hon, tracks, live, recorded_append_of_ne_nil hne [f]⟩
    rw [hcore]
    exact arrive_of_recording hon

end Underway

end Tesd
