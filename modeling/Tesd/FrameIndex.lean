import Tesd.Lib.Records
import Tesd.RecorderRun

/-!
# The frame index describes the data files

The `.fidx` file has a record for every recorded frame.  The records that name one data file cut it
into the payloads of its frames, from the first byte to the last.
-/

namespace Tesd

open LittleEndian Records

/-- The data file that field `PT` of a record selects. -/
def Dset.ofPt (pt : ℕ) : Dset :=
  if pt = FTYPE_BAD then .bdat else if pt = FTYPE_MCA then .mdat
  else if pt = FTYPE_TICK then .tdat else .edat

/-- A record as a reader of the index finds it. -/
def Fidx.read (bytes : List UInt8) : Fidx :=
  let ftype := ofLe ((bytes.drop 15).take 1)
  { start := ofLe (bytes.take 8)
    length := ofLe ((bytes.drop 8).take 4)
    esize := ofLe ((bytes.drop 12).take 2)
    changed := ofLe ((bytes.drop 14).take 1)
    pt := ftype % 16
    reserved := ftype / 16 % 4
    hdr := ftype / 64 % 2 == 1
    seq := ftype / 128 == 1 }

/-- The records of a `.fidx` file. -/
def fidxRecords (file : List UInt8) : List Fidx := (pieces FIDX_LEN file).map Fidx.read

/-- The slices of a data file that the records name. -/
def slicesOf (ds : Dset) (records : List Fidx) : List (ℕ × ℕ) :=
  (records.filter fun r => Dset.ofPt r.pt = ds).map fun r => (r.start, r.length)

/-- Every field of the record fits its width. -/
structure Fidx.Fits (r : Fidx) : Prop where
  start : r.start < 2 ^ 64
  length : r.length < 2 ^ 32
  esize : r.esize < 2 ^ 16
  changed : r.changed < 2 ^ 8
  pt : r.pt < 16
  reserved : r.reserved < 4

theorem Fidx.read_bytes {r : Fidx} (h : r.Fits) : Fidx.read r.bytes = r := by
  have hft : r.pt + 16 * r.reserved + 64 * r.hdr.toNat + 128 * r.seq.toNat < 256 ^ 1 := by
    have := h.pt
    have := h.reserved
    cases r.hdr <;> cases r.seq <;> simp only [Bool.toNat_true, Bool.toNat_false] <;> omega
  have hread : Fidx.read r.bytes =
      { start := ofLe (leBytes 8 r.start)
        length := ofLe (leBytes 4 r.length)
        esize := ofLe (leBytes 2 r.esize)
        changed := ofLe (leBytes 1 r.changed)
        pt := ofLe (leBytes 1 (r.pt + 16 * r.reserved + 64 * r.hdr.toNat + 128 * r.seq.toNat)) % 16
        reserved :=
          ofLe (leBytes 1 (r.pt + 16 * r.reserved + 64 * r.hdr.toNat + 128 * r.seq.toNat)) / 16 % 4
        hdr := ofLe (leBytes 1 (r.pt + 16 * r.reserved + 64 * r.hdr.toNat + 128 * r.seq.toNat)) /
          64 % 2 == 1
        seq := ofLe (leBytes 1 (r.pt + 16 * r.reserved + 64 * r.hdr.toNat + 128 * r.seq.toNat)) /
          128 == 1 } := rfl
  rw [hread, ofLe_leBytes_of_lt h.start, ofLe_leBytes_of_lt h.length, ofLe_leBytes_of_lt h.esize,
    ofLe_leBytes_of_lt h.changed, ofLe_leBytes_of_lt hft]
  obtain ⟨start, length, esize, changed, pt, reserved, hdr, seq⟩ := r
  have := h.pt
  have := h.reserved
  simp only [Fidx.mk.injEq, true_and]
  dsimp only at *
  cases hdr <;> cases seq <;> simp only [Bool.toNat_true, Bool.toNat_false] <;>
    refine ⟨by omega, by omega, ?_, ?_⟩ <;> simp <;> omega

theorem etype_lt (pkt : Tespkt) : linearEtype pkt.etypePKT pkt.etypeTR < FTYPE_TICK := by
  have hpkt : pkt.etypePKT < 4 := Nat.mod_lt _ (by decide)
  have htr : pkt.etypeTR < 4 := Nat.mod_lt _ (by decide)
  unfold linearEtype FTYPE_TICK TESPKT_TYPE_TRACE
  split_ifs <;> omega

theorem ofPt_of_lt {pt : ℕ} (h : pt < FTYPE_TICK) : Dset.ofPt pt = .edat := by
  have hne : pt ≠ FTYPE_BAD ∧ pt ≠ FTYPE_MCA ∧ pt ≠ FTYPE_TICK := by
    unfold FTYPE_TICK at h
    unfold FTYPE_BAD FTYPE_MCA FTYPE_TICK
    omega
  rw [Dset.ofPt, if_neg hne.1, if_neg hne.2.1, if_neg hne.2.2]

/-- The record of a frame, but for its place in the data file. -/
theorem indexFrame_fidx (f : Frame) (c : Core) :
    (c.indexFrame f).2.1.length = f.paylen ∧
      Dset.ofPt (c.indexFrame f).2.1.pt = f.dset ∧ (c.indexFrame f).2.1.pt < 16 ∧
      (c.indexFrame f).2.1.esize < 2 ^ 16 ∧ (c.indexFrame f).2.1.changed < 2 ^ 8 ∧
      (c.indexFrame f).2.1.reserved < 4 := by
  have hres : f.junk.toNat / 16 % 4 < 4 := Nat.mod_lt _ (by decide)
  have hes : f.pkt.esize < 2 ^ 16 := Tespkt.u16_lt 20
  have hpt := etype_lt f.pkt
  have hpt16 : linearEtype f.pkt.etypePKT f.pkt.etypeTR < 16 := hpt.trans (by decide)
  have hch : 0 < 2 ^ 8 := by decide
  unfold Core.indexFrame Frame.dset
  by_cases he : f.err ≠ 0
  · rw [if_pos he, if_pos he]
    exact ⟨rfl, rfl, (by decide : FTYPE_BAD < 16), hes, hch, hres⟩
  · rw [if_neg he, if_neg he]
    cases f.pkt.isMca with
    | true => exact ⟨rfl, rfl, (by decide : FTYPE_MCA < 16), hes, hch, hres⟩
    | false =>
      cases f.pkt.isTick with
      | true => exact ⟨rfl, rfl, (by decide : FTYPE_TICK < 16), hes, hch, hres⟩
      | false =>
        refine ⟨rfl, ofPt_of_lt hpt, hpt16, hes, ?_, hres⟩
        simp only [Bool.false_eq_true, if_false]
        split_ifs <;> decide

/-- The record of a frame names the slice of its data file where its payload goes. -/
theorem index_fidx (f : Frame) (r : Recorder) :
    (r.index f).2.1.start = (r.files f.dset).length ∧ (r.index f).2.1.length = f.paylen ∧
      Dset.ofPt (r.index f).2.1.pt = f.dset ∧
      ((r.files f.dset).length < 2 ^ 64 → (r.index f).2.1.Fits) := by
  obtain ⟨hlen, hpt, hpt16, hes, hch, hres⟩ := indexFrame_fidx f (r.core.count f)
  unfold Recorder.index
  dsimp only
  obtain ⟨ticks, events, traces, hists, cs, hdr, due, done, h⟩ := indexStream_frame f
    (r.files f.dset).length
    { ((r.core.count f).indexFrame f).2.1 with start := (r.files f.dset).length }
    ((r.core.count f).indexFrame f).1
  rw [h]
  refine ⟨rfl, hlen, hpt, fun hs => ⟨hs, ?_, hes, hch, hpt16, hres⟩⟩
  dsimp only
  rw [hlen, Frame.paylen]
  omega

/-! ## The index of a run -/

/-- The records that a run adds to the index. -/
def fidxOf : List Frame → Recorder → List Fidx
  | [], _ => []
  | f :: fs, r => (r.index f).2.1 :: fidxOf fs (r.record f)

theorem length_fidxOf (fs : List Frame) (r : Recorder) : (fidxOf fs r).length = fs.length := by
  induction fs generalizing r with
  | nil => rfl
  | cons f fs ih => rw [fidxOf, List.length_cons, List.length_cons, ih]

theorem run_files_fidx (fs : List Frame) (r : Recorder) :
    (r.run fs).files .fidx = r.files .fidx ++ (fidxOf fs r).flatMap Fidx.bytes := by
  induction fs generalizing r with
  | nil => simp [run_nil, fidxOf]
  | cons f fs ih =>
    rw [run_cons, ih, record_files_fidx, fidxOf, List.flatMap_cons, List.append_assoc]

/-- A data file only grows, and by the payloads of its own frames. -/
theorem run_files_data {ds : Dset} (data : ds.IsData) (fs : List Frame) (r : Recorder) :
    (r.run fs).files ds = r.files ds ++ (fs.filter fun f => f.dset = ds).flatMap Frame.payload := by
  induction fs generalizing r with
  | nil => simp [run_nil]
  | cons f fs ih =>
    rw [run_cons, ih, record_files_data f r data, List.append_assoc, List.filter_cons]
    by_cases h : f.dset = ds <;> simp [h]

theorem getElem?_fidxOf (fs : List Frame) (r : Recorder) {k : ℕ} (hk : k < fs.length) :
    (fidxOf fs r)[k]? = some ((r.run (fs.take k)).index fs[k]).2.1 := by
  induction fs generalizing r k with
  | nil => cases hk
  | cons f fs ih =>
    cases k with
    | zero => rfl
    | succ k => exact ih (r.record f) (Nat.lt_of_succ_lt_succ hk)

/-- What a data file holds when a frame is recorded is still at its start after the run. -/
theorem run_files_split {fs : List Frame} (r : Recorder) {k : ℕ} (hk : k < fs.length) :
    ∃ rest, (r.run fs).files fs[k].dset =
      (r.run (fs.take k)).files fs[k].dset ++ fs[k].payload ++ rest := by
  have hsplit : r.run fs = ((r.run (fs.take k)).record fs[k]).run (fs.drop (k + 1)) := by
    rw [← run_cons, ← run_append, ← List.drop_eq_getElem_cons hk, List.take_append_drop]
  refine ⟨((fs.drop (k + 1)).filter fun f => f.dset = fs[k].dset).flatMap Frame.payload, ?_⟩
  rw [hsplit, run_files_data (isData_dset fs[k]), record_files_data _ _ (isData_dset fs[k]),
    if_pos rfl]

/-- The slices that the records name cut each data file from where the run found it to its end. -/
theorem tiles_fidxOf {ds : Dset} (data : ds.IsData) (fs : List Frame) (r : Recorder) :
    Tiles (r.files ds).length (slicesOf ds (fidxOf fs r)) ((r.run fs).files ds).length := by
  induction fs generalizing r with
  | nil => rfl
  | cons f fs ih =>
    obtain ⟨hstart, hlen, hpt, -⟩ := index_fidx f r
    have hrec := ih (r.record f)
    rw [record_files_data f r data] at hrec
    rw [run_cons, fidxOf, slicesOf, List.filter_cons, hpt]
    by_cases h : f.dset = ds
    · rw [if_pos (decide_eq_true h), List.map_cons, hstart, hlen, h]
      rw [if_pos h, List.length_append, length_payload] at hrec
      exact ⟨rfl, hrec⟩
    · rw [if_neg (by simpa using h)]
      rwa [if_neg h, List.append_nil] at hrec

/-- The records that a reader finds in the index are those that the run wrote. -/
theorem fidxRecords_run {fs : List Frame} {r : Recorder} (empty : r.files .fidx = [])
    (small : ∀ ds, ds.IsData → ((r.run fs).files ds).length < 2 ^ 64) :
    fidxRecords ((r.run fs).files .fidx) = fidxOf fs r := by
  rw [run_files_fidx, empty, List.nil_append, fidxRecords,
    pieces_flatMap length_fidx_bytes (by decide), List.map_map]
  refine (List.map_congr_left fun q hq => ?_).trans (List.map_id _)
  obtain ⟨k, hk⟩ := List.getElem?_of_mem hq
  have hlt : k < fs.length := by
    rw [← length_fidxOf fs r]
    exact (List.getElem?_eq_some_iff.1 hk).1
  obtain rfl := Option.some.inj (hk.symm.trans (getElem?_fidxOf fs r hlt))
  refine Fidx.read_bytes ((index_fidx _ _).2.2.2 ?_)
  obtain ⟨rest, hfile⟩ := run_files_split r hlt
  have := small _ (isData_dset fs[k])
  rw [hfile, List.length_append, List.length_append] at this
  omega

/-! ## The files of a job -/

/-- In a job without I/O errors every closed file is the recorder's. -/
theorem files_of_reports {exact : Prop} {r : Recorder} {report : Report}
    (h : Reports exact r report) (clean : ∀ ds, report.lost ds = false) {ds : Dset}
    (known : Known exact ds) :
    report.files ds = r.files ds ∧ (r.files ds).length ≤ OFF_MAX := by
  obtain ⟨hfile, hlen⟩ := h.whole ds (kept_of_known known) (clean ds)
  rw [hfile.trans (h.queued ds known)] at hlen
  exact ⟨hfile.trans (h.queued ds known), hlen⟩

/-- The frame index describes the data files: in a job without I/O errors, on frames that are
stored within bounds, record `k` names the slice of its data file that is the payload of frame `k`,
and the slices of each data file follow on one another from its first byte to its last. -/
theorem fidx_describes_data_files (fuel : ℕ) (hf : 4 ≤ fuel) (env : Env) (s : Setup)
    (fs : List Frame) (inBounds : ∀ f ∈ fs, TESPKT_HDR_LEN < f.flen ∧ f.flen ≤ MTU) :
    ∃ handled report, runJob fuel env fs (openJob s) = some (handled, report) ∧ handled <+: fs ∧
      ((∀ ds, report.lost ds = false) →
        report.st.frames = (recorded handled).length ∧
        (report.files .fidx).length = FIDX_LEN * report.st.frames ∧
        (fidxRecords (report.files .fidx)).length = report.st.frames ∧
        (∀ k (hk : k < (recorded handled).length),
          ∃ q, (fidxRecords (report.files .fidx))[k]? = some q ∧
            Dset.ofPt q.pt = (recorded handled)[k].dset ∧
            q.length = (recorded handled)[k].payload.length ∧
            ((report.files (Dset.ofPt q.pt)).drop q.start).take q.length =
              (recorded handled)[k].payload) ∧
        ∀ ds : Dset, ds.IsData →
          Tiles 0 (slicesOf ds (fidxRecords (report.files .fidx))) (report.files ds).length) := by
  obtain ⟨handled, report, hrun, hend⟩ :=
    runJob_spec True hf env s fs fun _ => allFit_of_inBounds inBounds _
  refine ⟨handled, report, hrun, hend.pre, fun clean => ?_⟩
  generalize recorded handled = rec at hend ⊢
  have hfiles : ∀ ds, report.files ds = ((Recorder.init s).run rec).files ds := fun ds =>
    (files_of_reports hend.reports clean (Or.inl trivial)).1
  have small : ∀ ds, ds.IsData → (((Recorder.init s).run rec).files ds).length < 2 ^ 64 :=
    fun ds _ => Nat.lt_of_le_of_lt (files_of_reports hend.reports clean (Or.inl trivial)).2
      (by rw [OFF_MAX]; omega)
  have hrecords : fidxRecords (report.files .fidx) = fidxOf rec (Recorder.init s) := by
    rw [hfiles]
    exact fidxRecords_run rfl small
  have hframes : report.st.frames = rec.length := by
    rw [hend.reports.st, (run_frame rec _).2.2.2.2]
    exact Nat.zero_add _
  have hcount : (fidxOf rec (Recorder.init s)).length = rec.length := length_fidxOf _ _
  rw [hrecords]
  refine ⟨hframes, ?_, hcount.trans hframes.symm, fun k hk => ?_, fun ds data => ?_⟩
  · rw [hfiles, run_files_fidx, hframes, ← hcount]
    exact length_flatMap_of_length length_fidx_bytes _
  · obtain ⟨hstart, hlen, hpt, -⟩ := index_fidx rec[k] ((Recorder.init s).run (rec.take k))
    refine ⟨_, getElem?_fidxOf rec _ hk, hpt, by rw [hlen, length_payload], ?_⟩
    rw [hpt, hlen, hstart]
    obtain ⟨rest, hsplit⟩ := run_files_split (Recorder.init s) hk
    rw [hfiles, hsplit, ← length_payload]
    exact take_drop_append _ _ _
  · rw [hfiles]
    exact tiles_fidxOf data rec (Recorder.init s)

theorem fidx_describes_data_files_three : ∃ report,
    runJob 4 smallEnv [.tick, .peak, .tick] (openJob smallJob) =
      some ([.tick, .peak, .tick], report) ∧
    (fidxRecords (report.files .fidx)).length = 3 ∧
    Tiles 0 (slicesOf .tdat (fidxRecords (report.files .fidx))) (report.files .tdat).length := by
  obtain ⟨handled, report, hrun, ⟨rest, hrest⟩, h⟩ := fidx_describes_data_files 4 (by decide)
    smallEnv smallJob [.tick, .peak, .tick] (by decide +kernel)
  have hend : (runJob 4 smallEnv [.tick, .peak, .tick] (openJob smallJob)).map
      (fun p => (p.1.length, Dset.all.all fun ds => !p.2.lost ds)) = some (3, true) := by
    decide +kernel
  rw [hrun] at hend
  obtain ⟨hlen, hlost⟩ := Prod.mk.inj (Option.some.inj hend)
  obtain rfl := List.IsPrefix.eq_of_length ⟨rest, hrest⟩ hlen
  obtain ⟨hframes, -, hcount, -, htiles⟩ := h (lost_eq_false hlost)
  exact ⟨report, hrun, hcount.trans hframes, htiles .tdat (Or.inr (Or.inr (Or.inl rfl)))⟩

end Tesd
