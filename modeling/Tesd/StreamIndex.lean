import Tesd.FrameIndex
import Tesd.Streams

/-!
# The trace and histogram indices are sound

Every record of a stream index names the payloads of a complete stream.  The invariant `Indexed`
cuts the valid frames so far into the streams that have been indexed and the gaps before them; what
the recorder knows of an unfinished stream is about the frames at the end.
-/

namespace Tesd

open LittleEndian Records

/-- The frames without an error. -/
def valid (fs : List Frame) : List Frame := fs.filter fun f => f.err = 0

/-- The stream that the recorder is following, at the end of the frames `tail` after the blocks. -/
def Unfinished (k : Kind) (es : List (List Frame × List Frame)) (tail : List Frame)
    (cs : CurStream) : Prop :=
  ∃ gap stream, tail = gap ++ stream ∧ IsStream k stream ∧ cs.size = declaredSize k stream ∧
    cs.start = Blocks.size k.bytes (Blocks.joined es ++ gap) ∧
    cs.curSize = Blocks.size k.bytes stream

/-- The frames are cut into indexed streams and gaps, and a rest. -/
structure Cut (k : Kind) (fs : List Frame) (r : Recorder) (es : List (List Frame × List Frame))
    (tail : List Frame) : Prop where
  frames : fs = Blocks.joined es ++ tail
  complete : ∀ e ∈ es, CompleteStream k e.2
  idx : r.files k.idx = (Blocks.places k.bytes 0 es).flatMap fun p => sidxBytes p.1 p.2

/-- What holds of a stream index and its data file after the valid frames `fs`. -/
structure Indexed (k : Kind) (fs : List Frame) (r : Recorder) : Prop where
  dat : r.files k.dat = fs.flatMap k.bytes
  idle : r.core.curStream.size = 0 → r.core.curStream.curSize = 0
  cut : ∃ es tail, Cut k fs r es tail ∧
    (0 < r.core.curStream.size → r.core.curStream.isEvent = k.isTrace →
      Unfinished k es tail r.core.curStream)

section Step

variable {k : Kind} {fs : List Frame} {r : Recorder} {f : Frame}

theorem kind_isData (k : Kind) : k.dat.IsData := by
  cases k <;> simp [Kind.dat, Dset.IsData]

theorem kind_idx (k : Kind) : k.idx = .ridx ∨ k.idx = .midx := by
  cases k <;> simp [Kind.idx]

/-- A frame that adds no record leaves the cut as it is. -/
theorem cut_of_same {es : List (List Frame × List Frame)} {tail : List Frame}
    (cut : Cut k fs r es tail) (more : List Frame)
    (same : dueFor k.idx (r.index f).2.2.1 = []) :
    Cut k (fs ++ more) (r.record f) es (tail ++ more) := by
  refine ⟨by rw [cut.frames, List.append_assoc], cut.complete, ?_⟩
  rw [record_files_sidx f r (kind_idx k), same, List.append_nil, cut.idx]

theorem record_dat (h : Indexed k fs r) (f : Frame) :
    (r.record f).files k.dat = (fs ++ [f]).flatMap k.bytes := by
  rw [record_files_data f r (kind_isData k), h.dat, List.flatMap_append]
  simp [Kind.bytes]

/-- A frame that is taken makes a stream with the frames before it. -/
theorem unfinished_of_takes {cs : CurStream} (h : Indexed k fs r) (ok : f.err = 0)
    (takes : r.Takes k f cs) :
    ∃ es tail, Cut k fs r es tail ∧ Unfinished k es (tail ++ [f]) cs := by
  obtain ⟨es, tail, cut, unfinished⟩ := h.cut
  refine ⟨es, tail, cut, ?_⟩
  rcases takes.how with ⟨header, idle, rfl⟩ | ⟨cont, next, busy, same, rfl⟩
  · refine ⟨tail, [f], rfl, ⟨⟨ok, takes.is, header⟩, by simp⟩, rfl, ?_, ?_⟩
    · rw [← cut.frames]
      exact congrArg List.length h.dat
    · show r.core.curStream.curSize + f.paylen = _
      rw [h.idle idle, Nat.zero_add]
      simp [Blocks.size, Kind.bytes_eq takes.is ok]
  · obtain ⟨gap, stream, rfl, hs, hsize, hstart, hcur⟩ := unfinished busy same
    refine ⟨gap, stream ++ [f], by rw [List.append_assoc], isStream_concat hs ok takes.is cont next,
      ?_, hstart, ?_⟩
    · rw [declaredSize_concat hs]
      exact hsize
    · show r.core.curStream.curSize + f.paylen = _
      rw [hcur, Blocks.size_append]
      simp [Blocks.size, Kind.bytes_eq takes.is ok]

theorem takes_isEvent {k' : Kind} {cs : CurStream} (takes : r.Takes k' f cs) :
    cs.isEvent = k'.isTrace := by
  rcases takes.how with ⟨-, -, rfl⟩ | ⟨-, -, -, same, rfl⟩
  · rfl
  · exact same

/-- The stream that the frame completes becomes a block. -/
theorem cut_of_full {cs : CurStream} {es : List (List Frame × List Frame)} {tail : List Frame}
    (cut : Cut k fs r es tail) (unfinished : Unfinished k es (tail ++ [f]) cs)
    (full : cs.curSize = cs.size)
    (due : (r.index f).2.2.1 = some (k.idx, sidxBytes cs.start cs.size)) :
    ∃ es', Cut k (fs ++ [f]) (r.record f) es' [] := by
  obtain ⟨gap, stream, htail, hs, hsize, hstart, hcur⟩ := unfinished
  refine ⟨es ++ [(gap, stream)], ?_, ?_, ?_⟩
  · rw [cut.frames, List.append_assoc, htail, Blocks.joined_concat, List.append_nil]
  · intro e he
    rcases List.mem_append.1 he with he | he
    · exact cut.complete e he
    · rw [List.mem_singleton.1 he]
      exact ⟨hs, by rw [← size_of_isStream hs, ← hcur, full, hsize]⟩
  · rw [record_files_sidx f r (kind_idx k), due, cut.idx, Blocks.places_concat,
      List.flatMap_append, Nat.zero_add, ← hstart, ← hcur, full]
    simp [dueFor]

/-- A valid frame. -/
theorem indexed_step_of_ok (h : Indexed k fs r) (ok : f.err = 0) :
    Indexed k (fs ++ [f]) (r.record f) := by
  have dat := record_dat h f
  by_cases taken : ∃ k' cs, r.Takes k' f cs
  · obtain ⟨k', cs, takes⟩ := taken
    obtain ⟨es, tail, cut, unfinished⟩ := h.cut
    rcases Nat.lt_trichotomy cs.curSize cs.size with short | full | long
    · obtain ⟨hcs, -, hdue⟩ := record_of_takes_lt ok takes short
      have same : dueFor k.idx (r.index f).2.2.1 = [] := by rw [hdue]; rfl
      refine ⟨dat, fun hz => by rw [hcs] at hz; omega, ?_⟩
      by_cases hk : k' = k
      · subst hk
        obtain ⟨es, tail, cut, unfinished⟩ := unfinished_of_takes h ok takes
        exact ⟨es, tail ++ [f], cut_of_same cut [f] same, fun _ _ => hcs ▸ unfinished⟩
      · refine ⟨es, tail ++ [f], cut_of_same cut [f] same, fun _ hev => ?_⟩
        rw [hcs, takes_isEvent takes] at hev
        exact absurd (Kind.eq_of_isTrace hev) hk
    · obtain ⟨hcs, -, hdue⟩ := record_of_takes_eq ok takes full
      refine ⟨dat, fun _ => by rw [hcs], ?_⟩
      by_cases hk : k' = k
      · subst hk
        obtain ⟨es, tail, cut, unfinished⟩ := unfinished_of_takes h ok takes
        obtain ⟨es', cut'⟩ := cut_of_full cut unfinished full hdue
        exact ⟨es', [], cut', fun hpos => by rw [hcs] at hpos; cases hpos⟩
      · have same : dueFor k.idx (r.index f).2.2.1 = [] := by
          rw [hdue]
          exact if_neg (by cases k <;> cases k' <;> simp_all [Kind.idx])
        exact ⟨es, tail ++ [f], cut_of_same cut [f] same, fun hpos => by rw [hcs] at hpos; cases hpos⟩
    · obtain ⟨hsize, hcur, -, hdue⟩ := record_of_takes_gt ok takes long
      have same : dueFor k.idx (r.index f).2.2.1 = [] := by rw [hdue]; rfl
      exact ⟨dat, fun _ => hcur, es, tail ++ [f], cut_of_same cut [f] same, fun hpos => by omega⟩
  · obtain ⟨hsize, hcur, -, -, hdue⟩ := record_of_not_takes ok fun k' cs takes =>
      taken ⟨k', cs, takes⟩
    obtain ⟨es, tail, cut, -⟩ := h.cut
    have same : dueFor k.idx (r.index f).2.2.1 = [] := by rw [hdue]; rfl
    refine ⟨dat, fun _ => ?_, es, tail ++ [f], cut_of_same cut [f] same, fun hpos => by omega⟩
    rcases hcur with h0 | ⟨hz, hsame⟩
    · exact h0
    · rw [hsame, h.idle hz]

/-- Every frame keeps the invariant; a bad one changes nothing. -/
theorem indexed_step (h : Indexed k fs r) (f : Frame) :
    Indexed k (fs ++ valid [f]) (r.record f) := by
  by_cases ok : f.err = 0
  · rw [valid, List.filter_cons_of_pos (by simpa using ok)]
    exact indexed_step_of_ok h ok
  · obtain ⟨hcs, hdue⟩ := record_of_err ok r
    have hdset : f.dset ≠ k.dat := by
      rw [dset_eq_bdat.2 ok]
      cases k <;> decide
    rw [valid, List.filter_cons_of_neg (by simpa using ok), List.filter_nil, List.append_nil]
    obtain ⟨es, tail, cut, unfinished⟩ := h.cut
    have cut' := cut_of_same cut [] (by rw [hdue]; rfl)
    rw [List.append_nil, List.append_nil] at cut'
    refine ⟨?_, by rw [hcs]; exact h.idle, es, tail, cut', by rw [hcs]; exact unfinished⟩
    rw [record_files_data f r (kind_isData k), if_neg hdset, List.append_nil, h.dat]

theorem indexed_run (h : Indexed k fs r) (gs : List Frame) :
    Indexed k (fs ++ valid gs) (r.run gs) := by
  induction gs generalizing fs r with
  | nil => simpa [valid, run_nil] using h
  | cons g gs ih =>
    have hcons : valid (g :: gs) = valid [g] ++ valid gs := by
      rw [valid, valid, valid, ← List.filter_append]
      rfl
    rw [run_cons, hcons, ← List.append_assoc]
    exact ih (indexed_step h g)

theorem indexed_init (k : Kind) (s : Setup) : Indexed k [] (Recorder.init s) :=
  ⟨rfl, fun _ => rfl, [], [], ⟨rfl, by simp, rfl⟩, fun hpos => by cases hpos⟩

end Step

/-! ## The files of a job -/

/-- The start and length that a record of a stream index holds. -/
def sidxRead (bytes : List UInt8) : ℕ × ℕ := (ofLe (bytes.take 8), ofLe (bytes.drop 8))

/-- The records of a stream index. -/
def sidxRecords (file : List UInt8) : List (ℕ × ℕ) := (pieces SIDX_LEN file).map sidxRead

theorem sidxRead_sidxBytes {start length : ℕ} (hs : start < 2 ^ 64) (hl : length < 2 ^ 64) :
    sidxRead (sidxBytes start length) = (start, length) := by
  rw [sidxRead, sidxBytes, List.take_left' (length_leBytes 8 start),
    List.drop_left' (length_leBytes 8 start), ofLe_leBytes_of_lt hs, ofLe_leBytes_of_lt hl]

theorem sidxRecords_flatMap {ps : List (ℕ × ℕ)} (small : ∀ p ∈ ps, p.1 + p.2 < 2 ^ 64) :
    sidxRecords (ps.flatMap fun p => sidxBytes p.1 p.2) = ps := by
  rw [sidxRecords, pieces_flatMap (fun p : ℕ × ℕ => length_sidxBytes p.1 p.2) (by decide), List.map_map]
  refine (List.map_congr_left fun p hp => ?_).trans (List.map_id _)
  have := small p hp
  exact sidxRead_sidxBytes (by omega) (by omega)

/-- The indices are sound: in a job without I/O errors, whatever the frames, the records of a stream
index name the payloads of complete streams, in order and without overlap. -/
theorem stream_index_sound (fuel : ℕ) (hf : 4 ≤ fuel) (env : Env) (s : Setup) (fs : List Frame) :
    ∃ handled report, runJob fuel env fs (openJob s) = some (handled, report) ∧ handled <+: fs ∧
      ((∀ ds, report.lost ds = false) → ∀ k : Kind, ∃ streams : List (List Frame),
        (report.files k.idx).length = SIDX_LEN * streams.length ∧
        (∀ stream ∈ streams, CompleteStream k stream) ∧
        Blocks.Within streams (valid (recorded handled)) ∧
        List.Forall₂ (fun stream p => p.2 = declaredSize k stream ∧
          p.1 + p.2 ≤ (report.files k.dat).length ∧
          ((report.files k.dat).drop p.1).take p.2 = stream.flatMap Frame.payload)
          streams (sidxRecords (report.files k.idx)) ∧
        (sidxRecords (report.files k.idx)).Pairwise fun p q => p.1 + p.2 ≤ q.1) := by
  obtain ⟨handled, report, hrun, hend⟩ := runJob_spec False hf env s fs False.elim
  refine ⟨handled, report, hrun, hend.pre, fun clean k => ?_⟩
  have known : ∀ ds, ds = k.idx ∨ ds = k.dat → Known False ds := by
    rintro ds (rfl | rfl) <;> cases k <;> exact Or.inr (by decide)
  have hindexed := indexed_run (indexed_init k s) (recorded handled)
  rw [List.nil_append] at hindexed
  obtain ⟨es, tail, cut, -⟩ := hindexed.cut
  obtain ⟨hidx, -⟩ := files_of_reports hend.reports clean (known _ (Or.inl rfl))
  obtain ⟨hdat, hsmall⟩ := files_of_reports hend.reports clean (known _ (Or.inr rfl))
  rw [hindexed.dat, cut.frames] at hdat hsmall
  rw [cut.idx] at hidx
  have hplaces := Blocks.forall₂_places k.bytes [] es tail
  rw [List.nil_append] at hplaces
  have hrecords : sidxRecords (report.files k.idx) = Blocks.places k.bytes 0 es := by
    rw [hidx]
    refine sidxRecords_flatMap fun p hp => ?_
    have hle := Blocks.add_le_of_mem_places k.bytes hp
    rw [List.flatMap_append, List.length_append] at hsmall
    have hmax : OFF_MAX < 2 ^ 64 := by decide
    unfold Blocks.size at hle
    omega
  rw [hrecords, cut.frames]
  refine ⟨es.map Prod.snd, ?_, ?_, Blocks.within_joined es tail, ?_, Blocks.pairwise_places _ _ _⟩
  · rw [hidx, length_flatMap_of_length fun p : ℕ × ℕ => length_sidxBytes p.1 p.2,
      Blocks.length_places, List.length_map]
  · intro stream hs
    obtain ⟨e, he, rfl⟩ := List.mem_map.1 hs
    exact cut.complete e he
  · rw [List.forall₂_map_left_iff, hdat]
    refine List.Forall₂.imp ?_ <|
      (List.forall₂_and_left _ _).2 ⟨cut.complete, hplaces⟩
    rintro e p ⟨hc, hlen, hle, hslice⟩
    refine ⟨?_, hle, ?_⟩
    · rw [hlen, size_of_isStream hc.1, hc.2]
    · rw [hslice, flatMap_bytes_of_isStream hc.1]

theorem stream_index_sound_trace : ∃ handled report,
    runJob 4 smallEnv [.tick, .traceHeader, .traceRest, .tick] (openJob smallJob) =
      some (handled, report) ∧
    ∃ stream, CompleteStream .trace stream ∧ Blocks.Within [stream] (valid (recorded handled)) := by
  obtain ⟨handled, report, hrun, -, h⟩ := stream_index_sound 4 (by decide) smallEnv smallJob
    [.tick, .traceHeader, .traceRest, .tick]
  have hend : (runJob 4 smallEnv [.tick, .traceHeader, .traceRest, .tick] (openJob smallJob)).map
      (fun p => ((p.2.files .ridx).length, Dset.all.all fun ds => !p.2.lost ds)) =
        some (SIDX_LEN, true) := by
    decide +kernel
  rw [hrun] at hend
  obtain ⟨hlen, hlost⟩ := Prod.mk.inj (Option.some.inj hend)
  obtain ⟨streams, hcount, complete, within, -⟩ := h (lost_eq_false hlost) .trace
  have hone : streams.length = 1 := by
    have := hcount.symm.trans hlen
    unfold SIDX_LEN at this
    omega
  obtain ⟨stream, rfl⟩ := List.length_eq_one_iff.1 hone
  exact ⟨handled, report, hrun, stream, complete stream (by simp), within⟩

end Tesd
