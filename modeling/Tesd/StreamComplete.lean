import Tesd.StreamIndex

/-!
# When a complete stream gets its record

A complete stream is indexed and counted once if no other stream is unfinished when its header
arrives.  If one is, the header only ends that stream, and its own frames are ignored.
-/

namespace Tesd

/-- The counters of what was recorded besides ticks. -/
def Stats.counts (st : Stats) : ℕ × ℕ × ℕ := (st.events, st.traces, st.hists)

theorem counts_counted (k : Kind) {st st' : Stats} (h : st.counts = st'.counts) :
    (k.counted st).counts = (k.counted st').counts := by
  simp only [Stats.counts, Prod.mk.injEq] at h
  cases k <;> simp [Kind.counted, Stats.counts, h]

theorem counts_counted_ne (k : Kind) (st : Stats) : (k.counted st).counts ≠ st.counts := by
  cases k <;> simp [Kind.counted, Stats.counts]

section Recorder

variable {k : Kind} {f : Frame} {r : Recorder} {cs : CurStream}

theorem record_sidx_of_none (h : (r.index f).2.2.1 = none) (k' : Kind) :
    (r.record f).files k'.idx = r.files k'.idx := by
  rw [record_files_sidx f r (kind_idx k'), h]
  exact List.append_nil _

theorem record_sidx_of_some {ds : Dset} {buf : List UInt8}
    (h : (r.index f).2.2.1 = some (ds, buf)) (k' : Kind) :
    (r.record f).files k'.idx = r.files k'.idx ++ if ds = k'.idx then buf else [] := by
  rw [record_files_sidx f r (kind_idx k'), h]
  rfl

theorem paylen_pos (ok : f.err = 0) : 0 < f.paylen := by
  rw [paylen_of_inBounds (inBounds_of_err ok)]
  have := (inBounds_of_err ok).1
  omega

/-- A stream that is followed from here on to its end gets its record and is counted. -/
theorem run_of_takes (ok : f.err = 0) (takes : r.Takes k f cs) (conts : List Frame)
    (hconts : ∀ g ∈ conts, g.err = 0 ∧ k.Is g.pkt ∧ g.pkt.isHeader = false ∧ g.missed = 0)
    (sum : cs.curSize + (conts.map Frame.paylen).sum = cs.size) :
    (∀ k' : Kind, (r.run (f :: conts)).files k'.idx =
        r.files k'.idx ++ if k.idx = k'.idx then sidxBytes cs.start cs.size else []) ∧
      (r.run (f :: conts)).core.st.counts = (k.counted r.core.st).counts := by
  induction conts generalizing f r cs with
  | nil =>
    obtain ⟨-, hst, hdue⟩ := record_of_takes_eq ok takes sum
    rw [run_cons, run_nil, hst]
    exact ⟨record_sidx_of_some hdue, counts_counted k rfl⟩
  | cons g conts ih =>
    obtain ⟨gok, gis, gcont, gnext⟩ := hconts g (by simp)
    rw [List.map_cons, List.sum_cons] at sum
    have short : cs.curSize < cs.size := by
      have := paylen_pos gok
      omega
    obtain ⟨hcs, hst, hdue⟩ := record_of_takes_lt ok takes short
    have gtakes : (r.record f).Takes k g ((r.record f).extended g) :=
      ⟨gis, Or.inr ⟨gcont, gnext, by rw [hcs]; omega, by rw [hcs]; exact takes_isEvent takes, rfl⟩⟩
    obtain ⟨hfiles, hcounts⟩ := ih gok gtakes (fun e he => hconts e (List.mem_cons_of_mem _ he))
      (by rw [Recorder.extended, hcs]; dsimp only; omega)
    rw [run_cons]
    refine ⟨fun k' => ?_, ?_⟩
    · rw [hfiles, record_sidx_of_none hdue]
      simp only [Recorder.extended, hcs]
    · rw [hcounts, hst]
      exact counts_counted k rfl

/-- The header of a complete stream that finds no other stream unfinished. -/
theorem run_of_idle {stream : List Frame} (complete : CompleteStream k stream)
    (idle : r.core.curStream.size = 0) (empty : r.core.curStream.curSize = 0) :
    (∀ k' : Kind, (r.run stream).files k'.idx = r.files k'.idx ++
        if k.idx = k'.idx then sidxBytes (r.files k.dat).length (declaredSize k stream) else []) ∧
      (r.run stream).core.st.counts = (k.counted r.core.st).counts := by
  obtain ⟨hs, sum⟩ := complete
  cases stream with
  | nil => exact hs.elim
  | cons h conts =>
    obtain ⟨⟨ok, is, header⟩, hconts⟩ := hs
    refine run_of_takes ok ⟨is, Or.inl ⟨header, idle, rfl⟩⟩ conts hconts ?_
    rw [List.map_cons, List.sum_cons] at sum
    show r.core.curStream.curSize + h.paylen + _ = k.declared h.pkt
    rw [empty, Nat.zero_add]
    exact sum

/-- Frames that continue nothing are ignored. -/
theorem run_of_orphans (conts : List Frame)
    (hconts : ∀ g ∈ conts, g.err = 0 ∧ k.Is g.pkt ∧ g.pkt.isHeader = false ∧ g.missed = 0)
    (idle : r.core.curStream.size = 0) :
    (∀ k' : Kind, (r.run conts).files k'.idx = r.files k'.idx) ∧
      (r.run conts).core.st.counts = r.core.st.counts := by
  induction conts generalizing r with
  | nil => exact ⟨fun _ => rfl, rfl⟩
  | cons g conts ih =>
    obtain ⟨ok, is, cont, -⟩ := hconts g (by simp)
    obtain ⟨hsize, -, hst, -, hdue⟩ := record_of_not_takes (r := r) ok fun k' cs takes => by
      rcases takes.how with ⟨header, -⟩ | ⟨-, -, busy, -⟩
      · rw [cont] at header
        cases header
      · omega
    obtain ⟨hfiles, hcounts⟩ := ih (fun e he => hconts e (List.mem_cons_of_mem _ he)) hsize
    rw [run_cons]
    refine ⟨fun k' => by rw [hfiles, record_sidx_of_none hdue], ?_⟩
    rw [hcounts, hst ⟨k, is⟩]
    rfl

/-- The header of a complete stream that finds another stream unfinished. -/
theorem run_of_busy {stream : List Frame} (hs : IsStream k stream)
    (busy : 0 < r.core.curStream.size) :
    (∀ k' : Kind, (r.run stream).files k'.idx = r.files k'.idx) ∧
      (r.run stream).core.st.counts = r.core.st.counts := by
  cases stream with
  | nil => exact hs.elim
  | cons h conts =>
    obtain ⟨⟨ok, is, header⟩, hconts⟩ := hs
    obtain ⟨hsize, -, hst, -, hdue⟩ := record_of_not_takes (r := r) ok fun k' cs takes => by
      rcases takes.how with ⟨-, idle, -⟩ | ⟨cont, -⟩
      · omega
      · rw [header] at cont
        cases cont
    obtain ⟨hfiles, hcounts⟩ := run_of_orphans conts hconts hsize
    rw [run_cons]
    refine ⟨fun k' => by rw [hfiles, record_sidx_of_none hdue], ?_⟩
    rw [hcounts, hst ⟨k, is⟩]
    rfl

end Recorder

/-! ## Jobs -/

/-- From one state of the job to the other, exactly one stream record was queued, which names the
stream's payloads, and one stream was counted. -/
def IndexedOnce (k : Kind) (stream : List Frame) (job job' : Job) : Prop :=
  (∀ k' : Kind, job'.queued k'.idx = job.queued k'.idx ++
    if k' = k then sidxBytes (job.queued k.dat).length (declaredSize k stream) else []) ∧
  job'.core.st.counts = (k.counted job.core.st).counts

theorem idx_eq_iff {k k' : Kind} : k.idx = k'.idx ↔ k' = k := by
  cases k <;> cases k' <;> simp [Kind.idx]

theorem prefix_run (fs : List Frame) (r : Recorder) (ds : Dset) :
    r.files ds <+: (r.run fs).files ds := by
  induction fs generalizing r with
  | nil => exact List.prefix_rfl
  | cons f fs ih =>
    refine List.IsPrefix.trans ?_ (ih (r.record f))
    rw [record_files_dueFor, List.append_assoc, List.append_assoc, List.append_assoc]
    exact List.prefix_append _ _

/-- A complete stream among the recorded frames is indexed and counted exactly once just if no
stream is unfinished when its header arrives.  What is queued for an index stays in it. -/
theorem indexedOnce_iff (fuel : ℕ) (hf : 4 ≤ fuel) (env : Env) (s : Setup) (pre : List Frame)
    (k : Kind) (stream : List Frame) (complete : CompleteStream k stream) (job job' : Job)
    (before : handleAll fuel env pre (openJob s) = some job)
    (recording : job.core.recording = true)
    (after : handleAll fuel env stream job = some job') :
    (IndexedOnce k stream job job' ↔ job.core.curStream.size = 0) ∧
      ∀ post handled report, runJob fuel env post job' = some (handled, report) →
        (∀ ds, report.lost ds = false) →
        ∀ k' : Kind, job'.queued k'.idx <+: report.files k'.idx := by
  rcases handleAll_spec hf pre (fun he : False => he.elim) before with
    ⟨-, rfl⟩ | ⟨-, hcore, tracks, live⟩
  · cases recording
  obtain ⟨hcore', tracks', live'⟩ := handleAll_of_recording hf stream hcore (hcore ▸ recording)
    tracks live (fun he : False => he.elim) after
  have hindexed := indexed_run (indexed_init k s) (recorded pre)
  generalize (Recorder.init s).run (recorded pre) = r at hcore tracks hcore' tracks' hindexed
  have known : ∀ k' : Kind, Known False k'.idx ∧ Known False k'.dat := fun k' => by
    cases k' <;> exact ⟨Or.inr (by decide), Or.inr (by decide)⟩
  have hidx : ∀ k' : Kind, job.queued k'.idx = r.files k'.idx := fun k' =>
    (tracks _).queued (known k').1
  have hidx' : ∀ k' : Kind, job'.queued k'.idx = (r.run stream).files k'.idx := fun k' =>
    (tracks' _).queued (known k').1
  have hdat : job.queued k.dat = r.files k.dat := (tracks _).queued (known k).2
  refine ⟨?_, fun post handled report hrun clean k' => ?_⟩
  · unfold IndexedOnce
    rw [hcore', hcore, hdat]
    constructor
    · rintro ⟨-, hcounts⟩
      by_contra busy
      rw [(run_of_busy complete.1 (Nat.pos_of_ne_zero busy)).2] at hcounts
      exact counts_counted_ne k _ hcounts.symm
    · intro idle
      obtain ⟨hfiles, hcounts⟩ := run_of_idle complete idle (hindexed.idle idle)
      refine ⟨fun k' => ?_, hcounts⟩
      rw [hidx', hidx, hfiles]
      simp only [idx_eq_iff]
  · have hrec : (r.run stream).core.recording = true := by
      rw [(run_frame stream r).1, ← hcore]
      exact recording
    obtain ⟨handled', report', hrun', hend⟩ := runJob_of_recording hf env post hcore' hrec tracks'
      live' fun he : False => he.elim
    obtain ⟨rfl, rfl⟩ := Prod.mk.inj (Option.some.inj (hrun'.symm.trans hrun))
    rw [hidx', (files_of_reports hend.reports clean (known k').1).1]
    exact prefix_run _ _ _

theorem completeStream_trace : CompleteStream .trace [.traceHeader, .traceRest] := by
  refine ⟨⟨⟨by decide +kernel, ?_, by decide +kernel⟩, fun f hf => ?_⟩, by decide +kernel⟩
  · show Frame.traceHeader.pkt.isTraceLong = true
    decide +kernel
  · obtain rfl := List.mem_singleton.1 hf
    refine ⟨by decide +kernel, ?_, by decide +kernel, by decide +kernel⟩
    show Frame.traceRest.pkt.isTraceLong = true
    decide +kernel

/-- A trace whose header follows a header frame of which the rest is missing. -/
theorem not_indexedOnce :
    ¬ ∀ fuel, 4 ≤ fuel → ∀ env s pre k stream, CompleteStream k stream → ∀ job job',
      handleAll fuel env pre (openJob s) = some job → job.core.recording = true →
      handleAll fuel env stream job = some job' → IndexedOnce k stream job job' := by
  intro claim
  have hrun : ((handleAll 4 smallEnv [.tick, .traceHeader] (openJob smallJob)).bind fun job =>
      (handleAll 4 smallEnv [.traceHeader, .traceRest] job).map fun job' =>
        (job.core.recording, job.core.st.traces, job'.core.st.traces)) = some (true, 0, 0) := by
    decide +kernel
  obtain ⟨job, hjob, hrest⟩ := Option.bind_eq_some_iff.1 hrun
  obtain ⟨job', hjob', heq⟩ := Option.map_eq_some_iff.1 hrest
  simp only [Prod.mk.injEq] at heq
  obtain ⟨hrec, htraces, htraces'⟩ := heq
  have := (claim 4 (by decide) smallEnv smallJob _ .trace _ completeStream_trace job job' hjob hrec
    hjob').2
  simp only [Stats.counts, Kind.counted, Prod.mk.injEq, htraces, htraces'] at this
  omega

theorem indexedOnce_iff_trace : ∃ job job',
    handleAll 4 smallEnv [.tick] (openJob smallJob) = some job ∧
    handleAll 4 smallEnv [.traceHeader, .traceRest] job = some job' ∧
    IndexedOnce .trace [.traceHeader, .traceRest] job job' := by
  have hrun : ((handleAll 4 smallEnv [.tick] (openJob smallJob)).bind fun job =>
      (handleAll 4 smallEnv [.traceHeader, .traceRest] job).map fun _ =>
        (job.core.recording, job.core.curStream.size)) = some (true, 0) := by
    decide +kernel
  obtain ⟨job, hjob, hrest⟩ := Option.bind_eq_some_iff.1 hrun
  obtain ⟨job', hjob', heq⟩ := Option.map_eq_some_iff.1 hrest
  obtain ⟨hrec, hsize⟩ := Prod.mk.inj heq
  exact ⟨job, job', hjob, hjob', (indexedOnce_iff 4 (by decide) smallEnv smallJob [.tick] .trace _
    completeStream_trace job job' hjob hrec hjob').1.2 hsize⟩

end Tesd
