import Mathlib.Data.List.Forall2
import Tesd.FrameIndex
import Tesd.JobFlag

/-!
# The header flag of the frame index

Field `HDR` of a record is to mark the header frames of traces and histograms.  `task_cap_pkt_hn`
sets it when a stream is started, does not do so when one is under way, and never clears it: what
the uninitialised record held is kept.
-/

namespace Tesd

open LittleEndian Records

namespace Frame

/-- A valid header frame of a trace or of a histogram. -/
def headsStream (f : Frame) : Bool :=
  f.err == 0 && ((f.pkt.isTraceLong || f.pkt.isMca) && f.pkt.isHeader)

/-- The flag in what the uninitialised record holds. -/
def staleHdr (f : Frame) : Bool := f.junk.toNat / 64 % 2 == 1

end Frame

/-! ## One frame -/

theorem indexFrame_hdr (f : Frame) (c : Core) : (c.indexFrame f).2.1.hdr = f.staleHdr := by
  unfold Core.indexFrame Frame.staleHdr
  split_ifs <;> rfl

/-- The flag in the record of a frame: set for a header frame if no stream is under way, and left as
it was otherwise. -/
theorem indexStream_hdr (f : Frame) (start : ℕ) (fidx : Fidx) (c : Core) :
    (c.indexStream f start fidx).2.1.hdr =
      ((f.headsStream && decide (c.curStream.size = 0)) || fidx.hdr) := by
  unfold Frame.headsStream
  by_cases ok : f.err = 0
  · have hstarts : (f.err == 0 && ((f.pkt.isTraceLong || f.pkt.isMca) && f.pkt.isHeader) &&
        decide (c.curStream.size = 0)) = c.startsStream f := by simp [ok, Core.startsStream]
    rw [hstarts]
    cases hs : c.startsStream f with
    | true => rw [indexStream_of_starts start fidx ok hs, Bool.true_or]
    | false =>
      rw [Bool.false_or, Core.indexStream, if_neg (not_not.2 ok)]
      simp only [hs, Bool.false_eq_true, if_false]
      split_ifs <;> rfl
  · rw [indexStream_of_err ok]
    simp [ok]

/-- The record that is made for a frame, but for its place in the data file. -/
theorem index_hdr (f : Frame) (r : Recorder) :
    (r.index f).2.1.hdr =
      ((f.headsStream && decide (r.core.curStream.size = 0)) || f.staleHdr) := by
  obtain ⟨curTick, esize, etype, hindex⟩ := indexFrame_frame f (r.core.count f)
  unfold Recorder.index
  dsimp only
  rw [indexStream_hdr, hindex]
  dsimp only
  rw [indexFrame_hdr]
  rfl

/-! ## The records of a job -/

/-- A record that differs from another one in its start at most. -/
def Moved (q q' : Fidx) : Prop := ∃ start, q = { q' with start := start }

theorem moved_indexStream (f : Frame) (start start' : ℕ) (fidx : Fidx) (c : Core) :
    Moved (c.indexStream f start { fidx with start := start }).2.1
      (c.indexStream f start' { fidx with start := start' }).2.1 := by
  refine ⟨start, ?_⟩
  have hhdr := indexStream_hdr f start { fidx with start := start } c
  have hhdr' := indexStream_hdr f start' { fidx with start := start' } c
  obtain ⟨_, _, _, _, _, hdr, _, _, h⟩ := indexStream_frame f start { fidx with start := start } c
  obtain ⟨_, _, _, _, _, hdr', _, _, h'⟩ :=
    indexStream_frame f start' { fidx with start := start' } c
  rw [h] at hhdr ⊢
  rw [h'] at hhdr' ⊢
  dsimp only at hhdr hhdr' ⊢
  rw [hhdr, hhdr']

/-- What has been queued for the frame index are the recorder's records, in other places maybe. -/
def Queues (queued : List UInt8) (records : List Fidx) : Prop :=
  ∃ qs : List Fidx, queued = qs.flatMap Fidx.bytes ∧ List.Forall₂ Moved qs records

/-- One frame that is recorded. -/
theorem queues_frame {fuel : ℕ} {env : Env} {f : Frame} {job job' : Job} {r : Recorder}
    {res : Option Report} {records : List Fidx} (hcore : job.core.arrive f = r.core)
    (hrec : r.core.recording = true) (queues : Queues (job.queued .fidx) records)
    (h : taskCapPktHn fuel env f job = some (res, job')) :
    Queues (fidxQueued res job') (records ++ [(r.index f).2.1]) := by
  obtain ⟨start, hqueued, -⟩ := taskCapPktHn_record (by rw [hcore]; exact hrec) h
  rw [hcore] at hqueued
  obtain ⟨q, hq, hqueued⟩ : ∃ q, Moved q (r.index f).2.1 ∧
      fidxQueued res job' = job.queued .fidx ++ q.bytes :=
    ⟨_, moved_indexStream f start _ _ _, hqueued⟩
  obtain ⟨qs, hqs, hmoved⟩ := queues
  refine ⟨qs ++ [q], ?_, List.rel_append hmoved (List.Forall₂.cons hq List.Forall₂.nil)⟩
  rw [hqueued, hqs, List.flatMap_append, List.flatMap_singleton]

/-- The rest of a job that is recording. -/
theorem queues_of_recording {fuel : ℕ} (hf : 4 ≤ fuel) {env : Env} {fs handled : List Frame}
    {report : Report} {job : Job} {r : Recorder} {records : List Fidx}
    (hcore : job.core = r.core) (hrec : r.core.recording = true) (tracks : Tracks False job r)
    (live : Live False job) (queues : Queues (job.queued .fidx) records)
    (h : runJob fuel env fs job = some (handled, report)) :
    Queues (report.queued .fidx) (records ++ fidxOf handled r) := by
  induction fs generalizing job r records handled with
  | nil =>
    obtain ⟨⟨report', job'⟩, hfin, heq⟩ := Option.map_eq_some_iff.1 h
    obtain ⟨rfl, rfl⟩ := Prod.mk.inj heq
    rw [fin_queued hfin, fidxOf, List.append_nil]
    exact queues
  | cons f fs ih =>
    have harrive : job.core.arrive f = r.core := by
      rw [hcore]
      exact arrive_of_recording hrec
    obtain ⟨res, job', hstep, hres⟩ :=
      taskCapPktHn_spec hf env harrive hrec tracks live False.elim
    have hframe := queues_frame harrive hrec queues hstep
    rw [runJob, hstep] at h
    rcases hres with ⟨rfl, -, hcore', tracks', live'⟩ | ⟨report', rfl, -⟩
    · obtain ⟨⟨rest, report'⟩, hrest, heq⟩ := Option.map_eq_some_iff.1 h
      obtain ⟨rfl, rfl⟩ := Prod.mk.inj heq
      rw [fidxOf, ← List.singleton_append, ← List.append_assoc]
      exact ih hcore' ((record_frame f r).1.trans hrec) tracks' live' hframe hrest
    · obtain ⟨rfl, rfl⟩ := Prod.mk.inj (Option.some.inj h)
      exact hframe

/-- Whatever the frames of a job, what it queues for the frame index are the recorder's records, in
other places maybe. -/
theorem queues_of_runJob {fuel : ℕ} (hf : 4 ≤ fuel) {env : Env} {s : Setup}
    {fs handled : List Frame} {report : Report}
    (h : runJob fuel env fs (openJob s) = some (handled, report)) :
    Queues (report.queued .fidx) (fidxOf (recorded handled) (Recorder.init s)) := by
  have hnone : Queues ((openJob s).queued .fidx) [] := ⟨[], rfl, List.Forall₂.nil⟩
  induction fs generalizing handled with
  | nil =>
    obtain ⟨⟨report', job'⟩, hfin, heq⟩ := Option.map_eq_some_iff.1 h
    obtain ⟨rfl, rfl⟩ := Prod.mk.inj heq
    rw [fin_queued hfin]
    exact hnone
  | cons f fs ih =>
    cases tick : f.pkt.isTick with
    | false =>
      rw [runJob, taskCapPktHn_of_idle fuel env rfl tick] at h
      obtain ⟨⟨rest, report'⟩, hrest, heq⟩ := Option.map_eq_some_iff.1 h
      obtain ⟨rfl, rfl⟩ := Prod.mk.inj heq
      rw [recorded_cons_of_not_tick tick]
      exact ih hrest
    | true =>
      have harrive : (openJob s).core.arrive f = (Recorder.init s).core := by
        rw [Core.arrive, tick]
        rfl
      obtain ⟨res, job', hstep, hres⟩ := taskCapPktHn_spec hf env harrive rfl
        (open_tracks False s) (open_live False s) False.elim
      have hframe := queues_frame harrive rfl hnone hstep
      rw [runJob, hstep] at h
      rcases hres with ⟨rfl, -, hcore', tracks', live'⟩ | ⟨report', rfl, -⟩
      · obtain ⟨⟨rest, report'⟩, hrest, heq⟩ := Option.map_eq_some_iff.1 h
        obtain ⟨rfl, rfl⟩ := Prod.mk.inj heq
        rw [recorded_cons_of_tick tick, fidxOf]
        exact queues_of_recording hf hcore' (record_frame f _).1 tracks' live' hframe hrest
      · obtain ⟨rfl, rfl⟩ := Prod.mk.inj (Option.some.inj h)
        rw [recorded_cons_of_tick tick]
        exact hframe

/-! ## What a reader finds -/

/-- The flag of a record can be read wherever the record points. -/
theorem read_bytes_hdr {q q' : Fidx} (moved : Moved q q') (hpt : q'.pt < 16)
    (hres : q'.reserved < 4) : (Fidx.read q.bytes).hdr = q'.hdr := by
  obtain ⟨start, rfl⟩ := moved
  have hft : q'.pt + 16 * q'.reserved + 64 * q'.hdr.toNat + 128 * q'.seq.toNat < 256 ^ 1 := by
    cases q'.hdr <;> cases q'.seq <;> simp <;> omega
  have hread : (Fidx.read { q' with start := start }.bytes).hdr =
      (ofLe (leBytes 1 (q'.pt + 16 * q'.reserved + 64 * q'.hdr.toNat + 128 * q'.seq.toNat)) /
        64 % 2 == 1) := rfl
  rw [hread, ofLe_leBytes_of_lt hft]
  cases q'.hdr <;> cases q'.seq <;> simp <;> omega

theorem map_read_hdr {qs records : List Fidx} (moved : List.Forall₂ Moved qs records)
    (fits : ∀ q ∈ records, q.pt < 16 ∧ q.reserved < 4) :
    ((qs.map Fidx.bytes).map Fidx.read).map Fidx.hdr = records.map Fidx.hdr := by
  induction moved with
  | nil => rfl
  | cons hq _ ih =>
    obtain ⟨hpt, hres⟩ := fits _ List.mem_cons_self
    have hrest := ih fun q hq => fits q (by simp [hq])
    simp only [List.map_cons, read_bytes_hdr hq hpt hres, hrest]

theorem fidxOf_fits (fs : List Frame) (r : Recorder) :
    ∀ q ∈ fidxOf fs r, q.pt < 16 ∧ q.reserved < 4 := by
  induction fs generalizing r with
  | nil => simp [fidxOf]
  | cons f fs ih =>
    intro q hq
    rcases List.mem_cons.1 hq with rfl | hq
    · obtain ⟨curTick, esize, etype, hindex⟩ := indexFrame_frame f (r.core.count f)
      obtain ⟨-, -, hpt, -, -, hres⟩ := indexFrame_fidx f (r.core.count f)
      unfold Recorder.index
      dsimp only
      obtain ⟨_, _, _, _, _, _, _, _, h⟩ := indexStream_frame f (r.files f.dset).length
        { ((r.core.count f).indexFrame f).2.1 with start := (r.files f.dset).length }
        ((r.core.count f).indexFrame f).1
      rw [h]
      exact ⟨hpt, hres⟩
    · exact ih (r.record f) q hq

/-- The flags that a reader of the index finds are those of the recorder's records. -/
theorem hdr_of_runJob {fuel : ℕ} (hf : 4 ≤ fuel) {env : Env} {s : Setup}
    {fs handled : List Frame} {report : Report}
    (h : runJob fuel env fs (openJob s) = some (handled, report)) :
    (fidxRecords (report.queued .fidx)).map Fidx.hdr =
      (fidxOf (recorded handled) (Recorder.init s)).map Fidx.hdr := by
  obtain ⟨qs, hqs, hmoved⟩ := queues_of_runJob hf h
  rw [fidxRecords, hqs, pieces_flatMap length_fidx_bytes (by decide)]
  exact map_read_hdr hmoved (fidxOf_fits _ _)

/-- The record of a frame is right about the flag: the frame heads a stream and none is under way,
or what the uninitialised record held happens to be right. -/
def FlagRight (f : Frame) (c : Core) : Prop :=
  (f.headsStream = true ∧ c.curStream.size = 0) ∨ f.staleHdr = f.headsStream

instance (f : Frame) (c : Core) : Decidable (FlagRight f c) := inferInstanceAs (Decidable (_ ∨ _))

theorem index_hdr_eq_iff (f : Frame) (r : Recorder) :
    (r.index f).2.1.hdr = f.headsStream ↔ FlagRight f r.core := by
  rw [index_hdr]
  unfold FlagRight
  by_cases hsize : r.core.curStream.size = 0
  · cases f.headsStream <;> simp [hsize]
  · cases f.headsStream <;> simp [hsize]

theorem map_hdr_iff (fs : List Frame) (r : Recorder) :
    (fidxOf fs r).map Fidx.hdr = fs.map Frame.headsStream ↔
      ∀ k (hk : k < fs.length), FlagRight fs[k] (r.run (fs.take k)).core := by
  induction fs generalizing r with
  | nil => simp [fidxOf]
  | cons f fs ih =>
    rw [fidxOf, List.map_cons, List.map_cons, List.cons.injEq, index_hdr_eq_iff, ih]
    constructor
    · rintro ⟨hf, hfs⟩ (_ | k) hk
      · exact hf
      · exact hfs k (Nat.lt_of_succ_lt_succ hk)
    · intro hall
      exact ⟨hall 0 (Nat.zero_lt_succ _), fun k hk => hall (k + 1) (Nat.succ_lt_succ hk)⟩

/-- In every job, whatever its frames, the flags in the frame index mark the valid header frames of
traces and histograms exactly if each of these comes when no stream is under way, and the
uninitialised records happen to hold the right flag otherwise. -/
theorem header_flag_iff (fuel : ℕ) (hf : 4 ≤ fuel) (env : Env) (s : Setup) (fs : List Frame) :
    ∃ handled report, runJob fuel env fs (openJob s) = some (handled, report) ∧
      handled <+: fs ∧
      (report.lost .fidx = false → report.files .fidx = report.queued .fidx) ∧
      ((fidxRecords (report.queued .fidx)).map Fidx.hdr =
          (recorded handled).map Frame.headsStream ↔
        ∀ k (hk : k < (recorded handled).length), FlagRight (recorded handled)[k]
          ((Recorder.init s).run ((recorded handled).take k)).core) := by
  obtain ⟨handled, report, hrun, hend⟩ := runJob_spec False hf env s fs False.elim
  refine ⟨handled, report, hrun, hend.pre, fun hlost => ?_, ?_⟩
  · exact (hend.reports.whole .fidx (Or.inr (by decide)) hlost).1
  · rw [hdr_of_runJob hf hrun]
    exact map_hdr_iff _ _

/-! ## Small jobs -/

theorem header_flag_iff_two : ∃ report,
    runJob 4 smallEnv [.tick, .traceHeader] (openJob smallJob) =
      some ([.tick, .traceHeader], report) ∧
    (fidxRecords (report.queued .fidx)).map Fidx.hdr = [false, true] := by
  obtain ⟨handled, report, hrun, ⟨rest, hrest⟩, -, hflags⟩ := header_flag_iff 4 (by decide) smallEnv
    smallJob [.tick, .traceHeader]
  have hlen : (runJob 4 smallEnv [.tick, .traceHeader] (openJob smallJob)).map
      (fun p => p.1.length) = some 2 := by decide +kernel
  rw [hrun] at hlen
  obtain rfl := List.IsPrefix.eq_of_length ⟨rest, hrest⟩ (Option.some.inj hlen)
  have hrec : recorded [Frame.tick, .traceHeader] = [.tick, .traceHeader] :=
    recorded_cons_of_tick (by decide +kernel) _
  rw [hrec] at hflags
  refine ⟨report, hrun, (hflags.2 ?_).trans (by decide +kernel)⟩
  rintro (_ | _ | k) hk
  · exact (by decide +kernel : FlagRight .tick (Recorder.init smallJob).core)
  · exact (by decide +kernel : FlagRight .traceHeader
      ((Recorder.init smallJob).run [.tick]).core)
  · exact absurd hk (by simp)

/-- The header frame of a trace that comes while another trace is under way is not marked. -/
theorem not_header_flag : ¬ ∀ fuel, 4 ≤ fuel → ∀ env s fs handled report,
    runJob fuel env fs (openJob s) = some (handled, report) →
    (fidxRecords (report.queued .fidx)).map Fidx.hdr =
      (recorded handled).map Frame.headsStream := by
  intro claim
  have hrun : (runJob 4 smallEnv [.tick, .traceHeader, .traceHeader] (openJob smallJob)).map
      (fun p => (p.1.length, (fidxRecords (p.2.queued .fidx)).map Fidx.hdr)) =
      some (3, [false, true, false]) := by
    decide +kernel
  obtain ⟨⟨handled, report⟩, h, hreport⟩ := Option.map_eq_some_iff.1 hrun
  obtain ⟨hlen, hflags⟩ := Prod.mk.inj hreport
  obtain rfl := List.IsPrefix.eq_of_length (handled_isPrefix (by decide) h) hlen
  have hclaim := claim 4 (by decide) smallEnv smallJob _ _ report h
  have hrec : recorded [Frame.tick, .traceHeader, .traceHeader] =
      [.tick, .traceHeader, .traceHeader] := recorded_cons_of_tick (by decide +kernel) _
  rw [hflags, hrec] at hclaim
  revert hclaim
  decide +kernel

end Tesd
