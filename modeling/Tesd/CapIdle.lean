import Mathlib.Tactic.IntervalCases
import Tesd.NoOverwrite

/-!
# Requests that are answered at once

What `task_cap_req_hn` leaves in the task when it does not start a capture.  Each of its early exits
closes what has been opened; only the statistics that `s_stats_read` has got of a file that is too
short are not reset.
-/

namespace Tesd

open Posix FileSystem LittleEndian

/-- The buffer of a file that is closed. -/
structure Aiobuf.Empty (b : Aiobuf) : Prop where
  opened : b.opened = false
  size : b.size = 0
  waiting : b.waiting = 0
  enqueued : b.enqueued = 0
  cur : b.cur = 0
  tail : b.tail = 0

namespace CapRequest

/-- The request asks for the status or a conversion, and is valid. -/
structure Queries (w : CapWorld) (req : CapRequest) : Prop where
  base : req.basefname ≠ none
  group : req.measurement ≠ none ∨ w.mallocOk = true
  ovrwtmode : req.ovrwtmode.toNat = TES_H5_OVRWT_NONE ∨ req.ovrwtmode.toNat = TES_H5_OVRWT_RELINK ∨
    req.ovrwtmode.toNat = TES_H5_OVRWT_FILE
  capmode : req.capmode.toNat = TES_CAP_AUTO ∨ req.capmode.toNat = TES_CAP_CONVONLY
  minTicks : req.minTicks = 0
  minEvents : req.minEvents = 0

/-- The files of a query have names, those of the statistics and of the converted file being `stat`
and `hdf5`; `fs'` is the tree after the directories on the way have been created. -/
structure Found (w : CapWorld) (req : CapRequest) (fs fs' : FileSystem) (stat hdf5 : CStr) :
    Prop where
  short : req.statName.length < PATH_MAX
  slash : '/' ∉ req.group
  room : stat.length + 5 < PATH_MAX
  paths : ∃ fs₁, canonicalizePath w req.statName true fs = (.path stat, fs₁) ∧
    canonicalizePath w req.hdf5Name false fs₁ = (.path hdf5, fs')

end CapRequest

namespace CapData

/-- No job is in progress, and nothing is left of one. -/
structure Unused (d : CapData) : Prop where
  st : d.job.core.st = ⟨0, 0, 0, 0, 0, 0, 0, 0⟩
  size : d.job.core.curStream.size = 0
  curSize : d.job.core.curStream.curSize = 0
  nframes : d.job.core.curTick.nframes = 0
  recording : d.job.core.recording = false
  fildes : ∀ ds, d.fildes ds = none
  statfd : d.statfd = false
  aio : ∀ ds, (d.job.aio ds).Empty

/-- The task is idle: there is no job, and no request. -/
structure Clean (d : CapData) : Prop extends Unused d where
  basefname : d.basefname = none
  measurement : d.measurement = none

/-- No assertion fails in the handling of any request. -/
def AssertsHold (d : CapData) : Prop :=
  ∀ w req fs out, taskCapReqHn w req { d with dbg := true } fs = some out → out.data.dbg = true

/-- The data for a query, with the names of its files. -/
def queried (req : CapRequest) (stat hdf5 : CStr) (d : CapData) : CapData :=
  { d.recv req with
    measurement := some req.group
    nocapture := true
    nooverwrite := req.ovrwtmode.toNat == TES_H5_OVRWT_NONE
    statfilename := stat
    hdf5filename := hdf5
    filename := fun ds => stat ++ '.' :: ds.extension }.withCore
      { (d.recv req).job.core with noconvert := req.capmode.toNat != TES_CAP_CONVONLY }

end CapData

/-- The statistics of a query are read from a file that is too short and has not only zeros in it;
`fs₁` and `fs₂` are the trees before and after the conversion. -/
def ShortStats (w : CapWorld) (req : CapRequest) (d : CapData) (fs : FileSystem) : Prop :=
  ∃ stat hdf5 fs₁ fs₂ data, req.Queries w ∧ req.Found w fs fs₁ stat hdf5 ∧
    (if req.capmode.toNat = TES_CAP_CONVONLY then
        w.conv ((d.dbgAssert !d.job.core.recording).queried req stat hdf5) fs₁ = (.ok, fs₂)
      else fs₂ = fs₁) ∧
    fs₂.openRead w.rights stat = .ok (some data) ∧ w.readOk = true ∧ data.length < STAT_LEN ∧
    ∃ b ∈ data, b ≠ 0

namespace CapData

variable {w : CapWorld} {req : CapRequest} {d d' d'' : CapData} {fs fs' : FileSystem}
  {dss : List Dset}

/-! ## What the preparation of a request leaves as it is -/

/-- The job, and which files are open. -/
structure SameJob (d d' : CapData) : Prop where
  st : d'.job.core.st = d.job.core.st
  curStream : d'.job.core.curStream = d.job.core.curStream
  curTick : d'.job.core.curTick = d.job.core.curTick
  recording : d'.job.core.recording = d.job.core.recording
  aio : d'.job.aio = d.job.aio
  fildes : d'.fildes = d.fildes
  statfd : d'.statfd = d.statfd
  dbg : d'.dbg = d.dbg

theorem SameJob.trans (h : SameJob d d') (h' : SameJob d' d'') : SameJob d d'' :=
  ⟨h'.st.trans h.st, h'.curStream.trans h.curStream, h'.curTick.trans h.curTick,
    h'.recording.trans h.recording, h'.aio.trans h.aio, h'.fildes.trans h.fildes,
    h'.statfd.trans h.statfd, h'.dbg.trans h.dbg⟩

theorem SameJob.unused (h : SameJob d d') (unused : d.Unused) : d'.Unused where
  st := h.st.trans unused.st
  size := (congrArg CurStream.size h.curStream).trans unused.size
  curSize := (congrArg CurStream.curSize h.curStream).trans unused.curSize
  nframes := (congrArg CurTick.nframes h.curTick).trans unused.nframes
  recording := h.recording.trans unused.recording
  fildes ds := (congrFun h.fildes ds).trans (unused.fildes ds)
  statfd := h.statfd.trans unused.statfd
  aio ds := congrFun h.aio ds ▸ unused.aio ds

theorem sameJob_recv (req : CapRequest) (d : CapData) : SameJob d (d.recv req) :=
  ⟨rfl, rfl, rfl, rfl, rfl, rfl, rfl, rfl⟩

theorem sameJob_isReqValid (w : CapWorld) (d : CapData) : SameJob d (d.isReqValid w).2 := by
  unfold isReqValid
  dsimp only
  split_ifs <;> exact ⟨rfl, rfl, rfl, rfl, rfl, rfl, rfl, rfl⟩

theorem sameJob_constructFilenames {rc : CapStatus}
    (h : d.constructFilenames w fs = some (rc, d', fs')) : SameJob d d' := by
  obtain ⟨stat, hdf5, filename, rfl⟩ := constructFilenames_eq h
  exact ⟨rfl, rfl, rfl, rfl, rfl, rfl, rfl, rfl⟩

/-! ## What a query finds -/

/-- The data after the checks of a valid query. -/
def checkedQuery (req : CapRequest) (d : CapData) : CapData :=
  { d.recv req with
    measurement := some req.group
    nocapture := true
    nooverwrite := req.ovrwtmode.toNat == TES_H5_OVRWT_NONE }.withCore
      { (d.recv req).job.core with noconvert := req.capmode.toNat != TES_CAP_CONVONLY }

theorem isReqValid_of_queries (d : CapData) (queries : req.Queries w) :
    (d.recv req).isReqValid w = (.ok, d.checkedQuery req) := by
  have hzero : (d.recv req).job.core.minTicks = 0 := congrArg UInt64.toNat queries.minTicks
  have hevents : (d.recv req).job.core.minEvents = 0 := congrArg UInt64.toNat queries.minEvents
  have hticks : (d.recv req).askedTicks = (d.recv req).job.core.minTicks :=
    if_neg fun h => h.1 hevents
  have hnot : (d.recv req).capmode ≠ TES_CAP_CAPONLY := by
    intro h
    rcases queries.capmode with hcap | hcap <;> cases hcap.symm.trans h
  refine isReqValid_eq_ok_iff.2 ⟨⟨queries.base, queries.group, queries.ovrwtmode, ?_⟩, ?_⟩
  · exact queries.capmode.imp_right fun h => .inr ⟨h, hticks.trans hzero⟩
  · rw [checkedReq, hticks, decide_eq_true hzero, beq_eq_false_iff_ne.2 hnot, Bool.or_false,
      Bool.true_and]
    rfl

theorem queries_of_isReqValid (h : (d.recv req).isReqValid w = (.ok, d'))
    (query : d'.nocapture = true) : req.Queries w := by
  obtain ⟨ok, rfl⟩ := isReqValid_eq_ok_iff.1 h
  have hticks : (d.recv req).askedTicks = 0 := of_decide_eq_true query
  have hasked := hticks
  unfold askedTicks at hasked
  split_ifs at hasked with hevents
  refine ⟨ok.base, ok.group, ok.ovrwtmode, ?_, (toNat_eq_zero_iff _).1 hasked, ?_⟩
  · rcases ok.capmode with hauto | ⟨-, hne⟩ | ⟨hconv, -⟩
    · exact .inl hauto
    · exact absurd hticks hne
    · exact .inr hconv
  · by_contra hno
    exact hevents ⟨fun h => hno ((toNat_eq_zero_iff _).1 h), hasked⟩

theorem found_iff {stat hdf5 : CStr} : req.Found w fs fs' stat hdf5 ↔
    NamesFor w req.base req.group true fs fs' stat hdf5 :=
  ⟨fun ⟨hshort, hslash, hroom, hpaths⟩ => ⟨hshort, hslash, hroom, hpaths⟩,
    fun ⟨hshort, hslash, hroom, hpaths⟩ => ⟨hshort, hslash, hroom, hpaths⟩⟩

theorem found_of_constructFilenames
    (h : (d.checkedQuery req).constructFilenames w fs = some (.ok, d', fs')) :
    ∃ stat hdf5, req.Found w fs fs' stat hdf5 ∧ d' = d.queried req stat hdf5 := by
  obtain ⟨stat, hdf5, names, rfl⟩ := constructFilenames_ok_iff.1 h
  exact ⟨stat, hdf5, found_iff.2 names, rfl⟩

theorem constructFilenames_of_found {stat hdf5 : CStr} (d : CapData)
    (found : req.Found w fs fs' stat hdf5) :
    (d.checkedQuery req).constructFilenames w fs = some (.ok, d.queried req stat hdf5, fs') :=
  constructFilenames_ok_iff.2 ⟨stat, hdf5, found_iff.1 found, rfl⟩

/-! ## Open files -/

/-- What holds while the files of a job are opened: each is open, or its buffer is empty. -/
structure Opening (d : CapData) : Prop where
  st : d.job.core.st = ⟨0, 0, 0, 0, 0, 0, 0, 0⟩
  size : d.job.core.curStream.size = 0
  curSize : d.job.core.curStream.curSize = 0
  nframes : d.job.core.curTick.nframes = 0
  recording : d.job.core.recording = false
  statfd : d.statfd = false
  open_ : ∀ ds, d.fildes ds ≠ none → (d.job.aio ds).opened = true
  empty : ∀ ds, d.fildes ds = none → (d.job.aio ds).Empty

theorem Unused.opening (unused : d.Unused) : d.Opening :=
  ⟨unused.st, unused.size, unused.curSize, unused.nframes, unused.recording, unused.statfd,
    fun ds h => absurd (unused.fildes ds) h, fun ds _ => unused.aio ds⟩

theorem Opening.unused (opening : d.Opening) (closed : ∀ ds, d.fildes ds = none) : d.Unused :=
  ⟨opening.st, opening.size, opening.curSize, opening.nframes, opening.recording, closed,
    opening.statfd, fun ds => opening.empty ds (closed ds)⟩

theorem opening_closeAiobuf (opening : d.Opening) (ds : Dset) (fs : FileSystem) :
    (d.closeAiobuf ds fs).1.Opening := by
  unfold closeAiobuf
  split
  · exact opening
  next p hp =>
    have hopened := opening.open_ ds (by rw [hp]; exact Option.some_ne_none p)
    refine ⟨opening.st, opening.size, opening.curSize, opening.nframes, opening.recording,
      opening.statfd, fun ds' h => ?_, fun ds' h => ?_⟩
    · by_cases heq : ds' = ds
      · subst heq
        exact absurd (Function.update_self ..) h
      · dsimp only at h ⊢
        rw [Function.update_of_ne heq] at h ⊢
        exact opening.open_ ds' h
    · by_cases heq : ds' = ds
      · subst heq
        dsimp only
        rw [Function.update_self, Aiobuf.closeAiobuf, if_neg (by simp [hopened])]
        exact ⟨rfl, rfl, rfl, rfl, rfl, rfl⟩
      · dsimp only at h ⊢
        rw [Function.update_of_ne heq] at h ⊢
        exact opening.empty ds' h

theorem opening_closeFiles (opening : d.Opening) (dss : List Dset) (fs : FileSystem) :
    (d.closeFiles dss fs).1.Opening := by
  induction dss generalizing d fs with
  | nil => exact opening
  | cons ds dss ih => exact ih (opening_closeAiobuf opening ds fs) _

/-- Closing all files leaves nothing of them. -/
theorem unused_closeFiles (opening : d.Opening) (fs : FileSystem) :
    (d.closeFiles Dset.all fs).1.Unused :=
  (opening_closeFiles opening Dset.all fs).unused (idle_closeFiles d fs)

theorem SameJob.opening (h : SameJob d d') (opening : d.Opening) : d'.Opening where
  st := h.st.trans opening.st
  size := (congrArg CurStream.size h.curStream).trans opening.size
  curSize := (congrArg CurStream.curSize h.curStream).trans opening.curSize
  nframes := (congrArg CurTick.nframes h.curTick).trans opening.nframes
  recording := h.recording.trans opening.recording
  statfd := h.statfd.trans opening.statfd
  open_ ds hds := by
    rw [h.aio]
    exact opening.open_ ds (congrFun h.fildes ds ▸ hds)
  empty ds hds := by
    rw [h.aio]
    exact opening.empty ds (congrFun h.fildes ds ▸ hds)

/-- The file that is opened by a name, if one is, and what it holds. -/
def openByName (w : CapWorld) (excl : Bool) (name : CStr) (fs : FileSystem) :
    Option (Path × List UInt8) × FileSystem :=
  let q := if !excl && fs.accessOk w.rights name then fs.unlink w.rights name else (none, fs)
  if q.1 ≠ none then (none, q.2)
  else
    match (if excl then q.2.openExcl w.rights name else q.2.openCreat w.rights name) with
    | (.error _, fs) => (none, fs)
    | (.ok p, fs) =>
      (some (p, match fs.node p with
        | some (.file data) => data
        | _ => []), fs)

/-- The data once a file has been opened. -/
def withFile (ds : Dset) (p : Path) (sched : Schedule) (contents : List UInt8) (d : CapData) :
    CapData :=
  { d with
    fildes := Function.update d.fildes ds (some p)
    job := { d.job with
      aio := Function.update d.job.aio ds (openedAiobuf sched contents (d.job.aio ds))
      queued := Function.update d.job.queued ds [] } }

section WithFile

variable {ds ds' : Dset} {p : Path} {sched : Schedule} {contents : List UInt8}

@[simp] theorem withFile_fildes_self :
    (d.withFile ds p sched contents).fildes ds = some p := Function.update_self ..

@[simp] theorem withFile_fildes_of_ne (h : ds' ≠ ds) :
    (d.withFile ds p sched contents).fildes ds' = d.fildes ds' := Function.update_of_ne h ..

@[simp] theorem withFile_aio_self : (d.withFile ds p sched contents).job.aio ds =
    openedAiobuf sched contents (d.job.aio ds) := Function.update_self ..

@[simp] theorem withFile_aio_of_ne (h : ds' ≠ ds) :
    (d.withFile ds p sched contents).job.aio ds' = d.job.aio ds' := Function.update_of_ne h ..

@[simp] theorem withFile_queued_self :
    (d.withFile ds p sched contents).job.queued ds = [] := Function.update_self ..

@[simp] theorem withFile_queued_of_ne (h : ds' ≠ ds) :
    (d.withFile ds p sched contents).job.queued ds' = d.job.queued ds' :=
  Function.update_of_ne h ..

end WithFile

/-- What `s_open_aiobuf` does depends on the name of the file only; its assertions hold if the
buffer is empty. -/
theorem openAiobuf_eq (w : CapWorld) (excl : Bool) (ds : Dset) (d : CapData) (fs : FileSystem) :
    ∃ c, ((d.job.aio ds).Empty → c = true) ∧ d.openAiobuf w excl ds fs =
      match openByName w excl (d.filename ds) fs with
      | (none, fs') => (false, d.dbgAssert c, fs')
      | (some (p, contents), fs') =>
        (true, (d.dbgAssert c).withFile ds p (w.sched ds) contents, fs') := by
  refine ⟨!(d.job.aio ds).opened && (d.job.aio ds).size == 0 &&
    (d.job.aio ds).cur == (d.job.aio ds).tail && (d.job.aio ds).cur == 0 &&
    (d.job.aio ds).waiting == 0 && (d.job.aio ds).enqueued == 0, fun empty => ?_, ?_⟩
  · simp [empty.opened, empty.size, empty.waiting, empty.enqueued, empty.cur, empty.tail]
  · have hname : ∀ c, (d.dbgAssert c).filename = d.filename := fun _ => rfl
    unfold openAiobuf openByName
    dsimp only
    rw [hname]
    generalize (if (!excl && fs.accessOk w.rights (d.filename ds)) = true then
      fs.unlink w.rights (d.filename ds) else (none, fs)) = q
    by_cases hq : q.1 ≠ none
    · rw [if_pos hq, if_pos hq]
    · rw [if_neg hq, if_neg hq]
      generalize (if excl = true then q.2.openExcl w.rights (d.filename ds)
        else q.2.openCreat w.rights (d.filename ds)) = r
      rcases r with ⟨e | p, fs'⟩ <;> rfl

/-- What `s_open_aiobuf` leaves: a file more, or the data as it was. -/
theorem openAiobuf_cases (w : CapWorld) (excl : Bool) (ds : Dset) (d : CapData) (fs : FileSystem) :
    ∃ c, ((d.job.aio ds).Empty → c = true) ∧
      ((∃ fs', d.openAiobuf w excl ds fs = (false, d.dbgAssert c, fs')) ∨
        ∃ p contents fs', d.openAiobuf w excl ds fs =
          (true, (d.dbgAssert c).withFile ds p (w.sched ds) contents, fs')) := by
  obtain ⟨c, hc, heq⟩ := openAiobuf_eq w excl ds d fs
  rw [heq]
  refine ⟨c, hc, ?_⟩
  split
  · exact Or.inl ⟨_, rfl⟩
  · exact Or.inr ⟨_, _, _, rfl⟩

theorem opening_openAiobuf (opening : d.Opening) (w : CapWorld) (excl : Bool) (ds : Dset)
    (fs : FileSystem) : (d.openAiobuf w excl ds fs).2.1.Opening := by
  obtain ⟨c, -, ⟨fs', hfail⟩ | ⟨p, contents, fs', hopen⟩⟩ := openAiobuf_cases w excl ds d fs
  · rw [hfail]
    exact ⟨opening.st, opening.size, opening.curSize, opening.nframes, opening.recording,
      opening.statfd, opening.open_, opening.empty⟩
  · rw [hopen]
    refine ⟨opening.st, opening.size, opening.curSize, opening.nframes, opening.recording,
      opening.statfd, fun ds' h => ?_, fun ds' h => ?_⟩
    · by_cases heq : ds' = ds
      · subst heq
        rw [withFile_aio_self]
        rfl
      · dsimp only at h ⊢
        rw [withFile_fildes_of_ne heq] at h
        rw [withFile_aio_of_ne heq]
        exact opening.open_ ds' h
    · by_cases heq : ds' = ds
      · subst heq
        dsimp only at h
        rw [withFile_fildes_self] at h
        cases h
      · dsimp only at h ⊢
        rw [withFile_fildes_of_ne heq] at h
        rw [withFile_aio_of_ne heq]
        exact opening.empty ds' h

theorem opening_openAll (opening : d.Opening) (w : CapWorld) (excl : Bool) (dss : List Dset)
    (fs : FileSystem) : (d.openAll w excl dss fs).2.1.Opening := by
  induction dss generalizing d fs with
  | nil => exact opening
  | cons ds dss ih =>
    have hone := opening_openAiobuf opening w excl ds fs
    rw [openAll]
    split
    next h =>
      rw [h] at hone
      exact hone
    next h =>
      rw [h] at hone
      exact ih hone _

/-- The assertions of `s_open_aiobuf` hold for files whose buffers are empty. -/
theorem openAll_dbg (w : CapWorld) (excl : Bool) (nodup : dss.Nodup)
    (empty : ∀ ds ∈ dss, (d.job.aio ds).Empty) (fs : FileSystem) :
    (d.openAll w excl dss fs).2.1.dbg = d.dbg := by
  induction dss generalizing d fs with
  | nil => rfl
  | cons ds dss ih =>
    rw [List.nodup_cons] at nodup
    obtain ⟨c, hc, ⟨fs', hfail⟩ | ⟨p, contents, fs', hopen⟩⟩ := openAiobuf_cases w excl ds d fs
    · obtain rfl := hc (empty ds List.mem_cons_self)
      rw [openAll, hfail]
      exact Bool.and_true d.dbg
    · obtain rfl := hc (empty ds List.mem_cons_self)
      rw [openAll, hopen]
      refine (ih nodup.2 (fun ds' hds' => ?_) fs').trans (Bool.and_true d.dbg)
      have hne : ds' ≠ ds := fun heq => nodup.1 (heq ▸ hds')
      rw [withFile_aio_of_ne hne]
      exact empty ds' (List.mem_cons_of_mem ds hds')

theorem closeFiles_dbg (dss : List Dset) (d : CapData) (fs : FileSystem) :
    (d.closeFiles dss fs).1.dbg = d.dbg := by
  induction dss generalizing d fs with
  | nil => rfl
  | cons ds dss ih =>
    rw [closeFiles, ih]
    unfold closeAiobuf
    split <;> rfl

theorem closeFiles_names (dss : List Dset) (d : CapData) (fs : FileSystem) :
    (d.closeFiles dss fs).1.basefname = d.basefname ∧
      (d.closeFiles dss fs).1.measurement = d.measurement := by
  induction dss generalizing d fs with
  | nil => exact ⟨rfl, rfl⟩
  | cons ds dss ih =>
    have hone : (d.closeAiobuf ds fs).1.basefname = d.basefname ∧
        (d.closeAiobuf ds fs).1.measurement = d.measurement := by
      unfold closeAiobuf
      split <;> exact ⟨rfl, rfl⟩
    obtain ⟨hbase, hgroup⟩ := ih (d.closeAiobuf ds fs).1 (d.closeAiobuf ds fs).2
    exact ⟨hbase.trans hone.1, hgroup.trans hone.2⟩

theorem openFiles_spec (unused : d.Unused) (w : CapWorld) (excl : Bool) (fs : FileSystem) :
    (d.openFiles w excl fs).2.1.Opening ∧ (d.openFiles w excl fs).2.1.dbg = d.dbg := by
  have nodup : Dset.all.Nodup := by decide
  have hassert : (d.job.core.st == ⟨0, 0, 0, 0, 0, 0, 0, 0⟩ && d.job.core.curStream.size == 0 &&
      d.job.core.curStream.curSize == 0 && d.job.core.curTick.nframes == 0) = true := by
    simp [unused.st, unused.size, unused.curSize, unused.nframes]
  unfold openFiles
  dsimp only
  rw [hassert]
  have hopening : (d.dbgAssert true).Opening := by
    obtain ⟨h₁, h₂, h₃, h₄, h₅, h₆, h₇, h₈⟩ := unused.opening
    exact ⟨h₁, h₂, h₃, h₄, h₅, h₆, h₇, h₈⟩
  have hempty : ∀ ds ∈ Dset.all, ((d.dbgAssert true).job.aio ds).Empty := fun ds _ => unused.aio ds
  refine ⟨opening_openAll hopening w excl Dset.all fs, ?_⟩
  rw [openAll_dbg w excl nodup hempty fs]
  exact Bool.and_true d.dbg

theorem Unused.free (unused : d.Unused) : d.free.Clean := by
  obtain ⟨h₁, h₂, h₃, h₄, h₅, h₆, h₇, h₈⟩ := unused
  exact ⟨⟨h₁, h₂, h₃, h₄, h₅, h₆, h₇, h₈⟩, rfl, rfl⟩

/-- Giving up a job whose files are being opened leaves the task idle. -/
theorem clean_closeFiles (opening : d.Opening) (fs : FileSystem) :
    (d.free.closeFiles Dset.all fs).1.Clean := by
  have hfree : d.free.Opening := by
    obtain ⟨h₁, h₂, h₃, h₄, h₅, h₆, h₇, h₈⟩ := opening
    exact ⟨h₁, h₂, h₃, h₄, h₅, h₆, h₇, h₈⟩
  obtain ⟨hbase, hgroup⟩ := closeFiles_names Dset.all d.free fs
  exact ⟨unused_closeFiles hfree fs, hbase, hgroup⟩

/-- The start of a job opens its files with no assertion failing, and leaves the task idle if it
does not succeed. -/
theorem start_spec (unused : d.Unused) (w : CapWorld) (fs : FileSystem) :
    (d.start w fs).data.dbg = d.dbg ∧
      ((d.start w fs).activated = false → (d.start w fs).data.Clean) := by
  obtain ⟨hopening, hdbg⟩ := openFiles_spec unused w d.nooverwrite fs
  unfold start
  split
  next d₁ fs₁ hopen =>
    rw [hopen] at hopening hdbg
    dsimp only at hopening hdbg ⊢
    generalize (if fs₁.accessOk w.rights d₁.statfilename = true then
      fs₁.unlink w.rights d₁.statfilename else (none, fs₁)) = q
    split
    · exact ⟨(closeFiles_dbg Dset.all d₁.free q.2).trans hdbg,
        fun _ => clean_closeFiles hopening q.2⟩
    · exact ⟨hdbg, fun h => Bool.noConfusion h⟩
  next rc d₁ fs₁ hno hopen =>
    rw [hopen] at hopening hdbg
    exact ⟨(closeFiles_dbg Dset.all d₁.free fs₁).trans hdbg,
      fun _ => clean_closeFiles hopening fs₁⟩

/-! ## Statistics that have been read -/

end CapData

/-- The statistics are zero if and only if the bytes are that they lie in. -/
theorem ofBytes_eq_zero_iff {bytes : List UInt8} (h : bytes.length = STAT_LEN) :
    Stats.ofBytes bytes = ⟨0, 0, 0, 0, 0, 0, 0, 0⟩ ↔ ∀ b ∈ bytes, b = 0 := by
  have hfields : Stats.ofBytes bytes = ⟨0, 0, 0, 0, 0, 0, 0, 0⟩ ↔
      ∀ i < 8, ofLe ((bytes.drop (8 * i)).take 8) = 0 := by
    simp only [Stats.ofBytes, Stats.mk.injEq]
    constructor
    · rintro ⟨h₀, h₁, h₂, h₃, h₄, h₅, h₆, h₇⟩ i hi
      interval_cases i <;> assumption
    · intro hall
      exact ⟨hall 0 (by decide), hall 1 (by decide), hall 2 (by decide), hall 3 (by decide),
        hall 4 (by decide), hall 5 (by decide), hall 6 (by decide), hall 7 (by decide)⟩
  rw [hfields]
  constructor
  · intro hall b hb
    obtain ⟨j, hj, rfl⟩ := List.mem_iff_getElem.1 hb
    unfold STAT_LEN at h
    -- the byte is in the field `j / 8`
    have hfield := (ofLe_eq_zero_iff _).1 (hall (j / 8) (by omega))
    apply hfield
    rw [List.mem_iff_getElem]
    refine ⟨j % 8, ?_, ?_⟩
    · rw [List.length_take, List.length_drop]
      omega
    · rw [List.getElem_take, List.getElem_drop]
      congr 1
      omega
  · intro hall i _
    rw [ofLe_eq_zero_iff]
    exact fun b hb => hall b (List.mem_of_mem_drop (List.mem_of_mem_take hb))

/-- A prefix that has been read of a file over statistics that are zero. -/
theorem statsOver_eq_zero_iff {got : List UInt8} (short : got.length ≤ STAT_LEN) :
    CapData.statsOver (some got) ⟨0, 0, 0, 0, 0, 0, 0, 0⟩ = ⟨0, 0, 0, 0, 0, 0, 0, 0⟩ ↔
      ∀ b ∈ got, b = 0 := by
  have hbytes : Stats.bytes ⟨0, 0, 0, 0, 0, 0, 0, 0⟩ = List.replicate STAT_LEN 0 := by decide
  have hlen : (got ++ (List.replicate STAT_LEN (0 : UInt8)).drop got.length).length = STAT_LEN := by
    rw [List.length_append, List.length_drop, List.length_replicate]
    omega
  rw [CapData.statsOver, hbytes, ofBytes_eq_zero_iff hlen]
  constructor
  · exact fun hall b hb => hall b (List.mem_append_left _ hb)
  · intro hall b hb
    rcases List.mem_append.1 hb with hb | hb
    · exact hall b hb
    · exact List.eq_of_mem_replicate (List.mem_of_mem_drop hb)

namespace CapData

variable {w : CapWorld} {req : CapRequest} {d d' : CapData} {fs fs' : FileSystem}

theorem statsGot_length {got : List UInt8} (h : d.statsGot w fs = some got) :
    got.length ≤ STAT_LEN := by
  unfold statsGot at h
  split at h
  · split_ifs at h
    obtain rfl := Option.some.inj h
    rw [List.length_take]
    exact Nat.min_le_left _ _
  · cases h

/-- A query that has got too little of the statistics, and not only zeros. -/
def ReadsShort (w : CapWorld) (fs : FileSystem) (d : CapData) : Prop :=
  ∃ fs₂ got, (if d.job.core.noconvert = true then (CapStatus.ok, fs) else w.conv d fs) = (.ok, fs₂) ∧
    d.statsGot w fs₂ = some got ∧ got.length < STAT_LEN ∧ ∃ b ∈ got, b ≠ 0

/-- What is left of the statistics that are read. -/
theorem clean_statsRead_iff (unused : d.Unused) (w : CapWorld) (fs₂ : FileSystem) :
    (d.statsRead w fs₂).2.free.Clean ↔
      ∀ got, d.statsGot w fs₂ = some got → ∀ b ∈ got, b = 0 := by
  rw [statsRead_eq]
  have hclean : (d.withStats (statsOver (d.statsGot w fs₂) d.job.core.st)).free.Clean ↔
      statsOver (d.statsGot w fs₂) d.job.core.st = ⟨0, 0, 0, 0, 0, 0, 0, 0⟩ := by
    constructor
    · exact fun clean => clean.st
    · intro hst
      exact ⟨⟨hst, unused.size, unused.curSize, unused.nframes, unused.recording, unused.fildes, rfl,
        unused.aio⟩, rfl, rfl⟩
  dsimp only
  rw [hclean, unused.st]
  cases hgot : d.statsGot w fs₂ with
  | none => simp [statsOver]
  | some got =>
    rw [statsOver_eq_zero_iff (statsGot_length hgot)]
    simp

/-- The statistics of a query are read, sent and reset, or remain as far as they have been read. -/
theorem query_spec (unused : d.Unused) (w : CapWorld) (fs : FileSystem) :
    (d.query w fs).data.dbg = d.dbg ∧ ((d.query w fs).data.Clean ↔ ¬ d.ReadsShort w fs) := by
  unfold query ReadsShort
  generalize (if d.job.core.noconvert = true then (CapStatus.ok, fs) else w.conv d fs) = r
  obtain ⟨rc, fs₂⟩ := r
  dsimp only
  by_cases hrc : rc = .ok
  · subst hrc
    rw [if_neg (fun h => h rfl)]
    have hclean := clean_statsRead_iff unused w fs₂
    rw [statsRead_eq] at hclean ⊢
    have hdbg : (d.dbg && !d.statfd) = d.dbg := by
      rw [unused.statfd]
      exact Bool.and_true d.dbg
    by_cases hlen : (d.statsGot w fs₂).map List.length = some STAT_LEN
    · rw [if_pos hlen]
      refine ⟨(Bool.and_true _).trans hdbg, iff_of_true ?_ ?_⟩
      · exact ⟨⟨rfl, rfl, rfl, rfl, rfl, unused.fildes, rfl, unused.aio⟩, rfl, rfl⟩
      · rintro ⟨fs₃, got, hfs, hgot, hshort, -⟩
        cases hfs
        rw [hgot, Option.map_some, Option.some.injEq] at hlen
        omega
    · rw [if_neg hlen] at hclean ⊢
      refine ⟨hdbg, hclean.trans ?_⟩
      constructor
      · rintro hall ⟨fs₃, got, hfs, hgot, -, b, hb, hne⟩
        cases hfs
        exact hne (hall got hgot b hb)
      · intro hno got hgot b hb
        by_contra hne
        have hle := statsGot_length hgot
        rw [hgot, Option.map_some, Option.some.injEq] at hlen
        exact hno ⟨fs₂, got, rfl, hgot, by omega, b, hb, hne⟩
  · rw [if_pos hrc]
    refine ⟨rfl, iff_of_true unused.free ?_⟩
    rintro ⟨fs₃, got, hno, -⟩
    exact hrc (Prod.mk.inj hno).1

end CapData

/-! ## The handler -/

section Handler

variable {w : CapWorld} {req : CapRequest} {d d₁ : CapData} {fs fs₁ : FileSystem}
  {out : CapOutcome} {stat hdf5 : CStr}

/-- What a query gets of the statistics. -/
theorem readsShort_queried_iff : (d.queried req stat hdf5).ReadsShort w fs₁ ↔ ∃ fs₂ data,
    (if req.capmode.toNat = TES_CAP_CONVONLY then
        w.conv (d.queried req stat hdf5) fs₁ = (.ok, fs₂)
      else fs₂ = fs₁) ∧
    fs₂.openRead w.rights stat = .ok (some data) ∧ w.readOk = true ∧ data.length < STAT_LEN ∧
    ∃ b ∈ data, b ≠ 0 := by
  have hnoconvert : (d.queried req stat hdf5).job.core.noconvert =
      (req.capmode.toNat != TES_CAP_CONVONLY) := rfl
  have hname : (d.queried req stat hdf5).statfilename = stat := rfl
  have hconv : ∀ fs₂, (if (d.queried req stat hdf5).job.core.noconvert = true then
      (CapStatus.ok, fs₁) else w.conv (d.queried req stat hdf5) fs₁) = (.ok, fs₂) ↔
        if req.capmode.toNat = TES_CAP_CONVONLY then
          w.conv (d.queried req stat hdf5) fs₁ = (.ok, fs₂)
        else fs₂ = fs₁ := by
    intro fs₂
    rw [hnoconvert]
    by_cases hmode : req.capmode.toNat = TES_CAP_CONVONLY
    · rw [if_neg (by simp [hmode]), if_pos hmode]
    · rw [if_pos (by simp [hmode]), if_neg hmode, Prod.mk.injEq]
      exact ⟨fun h => h.2.symm, fun h => ⟨rfl, h.symm⟩⟩
  unfold CapData.ReadsShort CapData.statsGot
  rw [hname]
  constructor
  · rintro ⟨fs₂, got, hfs, hgot, hshort, hne⟩
    split at hgot
    next data hopen =>
      split_ifs at hgot with hread
      obtain rfl := Option.some.inj hgot
      have hall : data.take STAT_LEN = data := by
        rw [List.length_take] at hshort
        exact List.take_of_length_le (by omega)
      rw [hall] at hshort hne
      exact ⟨fs₂, data, (hconv fs₂).1 hfs, hopen, hread, hshort, hne⟩
    · cases hgot
  · rintro ⟨fs₂, data, hfs, hopen, hread, hshort, hne⟩
    refine ⟨fs₂, data, (hconv fs₂).2 hfs, ?_, hshort, hne⟩
    rw [hopen]
    dsimp only
    rw [if_pos hread, List.take_of_length_le (Nat.le_of_lt hshort)]

/-- What the handler of a request leaves of an idle task. -/
theorem taskCapReqHn_idle (unused : d.Unused) (h : taskCapReqHn w req d fs = some out) :
    out.data.dbg = d.dbg ∧
      (out.activated = false → (out.data.Clean ↔ ¬ ShortStats w req d fs)) := by
  have hstart : CapData.SameJob d (d.dbgAssert !d.job.core.recording) := by
    rw [unused.recording]
    exact ⟨rfl, rfl, rfl, rfl, rfl, rfl, rfl, Bool.and_true d.dbg⟩
  have hshort : ShortStats w req d fs → ∃ stat hdf5 fs₁, req.Queries w ∧
      req.Found w fs fs₁ stat hdf5 ∧
      ((d.dbgAssert !d.job.core.recording).queried req stat hdf5).ReadsShort w fs₁ := by
    rintro ⟨stat, hdf5, fs₁, fs₂, data, queries, found, hrest⟩
    exact ⟨stat, hdf5, fs₁, queries, found, readsShort_queried_iff.2 ⟨fs₂, data, hrest⟩⟩
  generalize hd₀ : (d.dbgAssert !d.job.core.recording) = d₀ at hstart hshort
  have hvalid := (hstart.trans (CapData.sameJob_recv req d₀)).trans
    (CapData.sameJob_isReqValid w (d₀.recv req))
  have hcases := taskCapReqHn_cases h
  rw [hd₀] at hcases
  rcases hcases with ⟨rc, d₁, hchecks, hno, rfl⟩ | ⟨d₁, hchecks, hrest⟩
  · rw [hchecks] at hvalid
    refine ⟨hvalid.dbg, fun _ => iff_of_true (hvalid.unused unused).free fun short => ?_⟩
    obtain ⟨_, _, _, queries, -⟩ := hshort short
    rw [CapData.isReqValid_of_queries d₀ queries] at hchecks
    cases hchecks
    exact hno rfl
  · rw [hchecks] at hvalid
    rcases hrest with ⟨rc, d₂, fs₁, hnames, hno, rfl⟩ | ⟨d₂, fs₁, hnames, rfl⟩
    · have hnamed := hvalid.trans (CapData.sameJob_constructFilenames hnames)
      refine ⟨hnamed.dbg, fun _ => iff_of_true (hnamed.unused unused).free fun short => ?_⟩
      obtain ⟨stat, hdf5, fs₂, queries, found, -⟩ := hshort short
      rw [CapData.isReqValid_of_queries d₀ queries] at hchecks
      cases hchecks
      rw [CapData.constructFilenames_of_found d₀ found] at hnames
      cases hnames
      exact hno rfl
    · have hnamed := hvalid.trans (CapData.sameJob_constructFilenames hnames)
      have hunused := hnamed.unused unused
      cases hquery : d₁.nocapture with
      | true =>
        have queries := CapData.queries_of_isReqValid hchecks hquery
        rw [CapData.isReqValid_of_queries d₀ queries] at hchecks
        cases hchecks
        obtain ⟨stat, hdf5, found, rfl⟩ := CapData.found_of_constructFilenames hnames
        obtain ⟨hdbg, hclean⟩ := CapData.query_spec hunused w fs₁
        have hyes : (d₀.queried req stat hdf5).nocapture = true := rfl
        rw [if_pos hyes]
        refine ⟨hdbg.trans hnamed.dbg, fun _ => hclean.trans (not_congr ?_)⟩
        constructor
        · intro reads
          obtain ⟨fs₂, data, hrest⟩ := readsShort_queried_iff.1 reads
          rw [← hd₀] at hrest
          exact ⟨stat, hdf5, fs₁, fs₂, data, queries, found, hrest⟩
        · intro short
          obtain ⟨stat', hdf5', fs', -, found', reads⟩ := hshort short
          have hsame := CapData.constructFilenames_of_found d₀ found'
          rw [hnames] at hsame
          cases hsame
          exact reads
      | false =>
        have hstays : d₂.nocapture = false := by
          obtain ⟨_, _, _, rfl⟩ := CapData.constructFilenames_eq hnames
          exact hquery
        obtain ⟨hdbg, hclean⟩ := CapData.start_spec hunused w fs₁
        rw [hstays, if_neg (by decide)]
        refine ⟨hdbg.trans hnamed.dbg, fun hanswered => iff_of_true (hclean hanswered) ?_⟩
        intro short
        obtain ⟨_, _, _, queries, -⟩ := hshort short
        rw [CapData.isReqValid_of_queries d₀ queries] at hchecks
        cases hchecks
        cases hquery

end Handler

/-- An idle task has no failing assertions. -/
theorem assertsHold_of_clean {d : CapData} (clean : d.Clean) : d.AssertsHold := by
  intro w req fs out h
  obtain ⟨h₁, h₂, h₃, h₄, h₅, h₆, h₇, h₈⟩ := clean.toUnused
  have unused : CapData.Unused { d with dbg := true } := ⟨h₁, h₂, h₃, h₄, h₅, h₆, h₇, h₈⟩
  exact (taskCapReqHn_idle unused h).1

/-- A request that is answered at once leaves the task idle, with no assertion failing for any
request that follows, if and only if it does not find its statistics in a file that is too short and
has not only zeros in it. -/
theorem clean_iff {w : CapWorld} {req : CapRequest} {d : CapData} {fs : FileSystem}
    {out : CapOutcome} (clean : d.Clean) (h : taskCapReqHn w req d fs = some out)
    (answered : out.activated = false) :
    (out.data.Clean ∧ out.data.AssertsHold) ↔ ¬ ShortStats w req d fs := by
  have hiff := (taskCapReqHn_idle clean.toUnused h).2 answered
  exact ⟨fun hout => hiff.1 hout.1, fun hno => ⟨hiff.2 hno, assertsHold_of_clean (hiff.2 hno)⟩⟩

/-- A request for the status of the capture to this file name. -/
def statusOf (c : CStr) : CapRequest := { captureOf c with minTicks := 0 }

theorem clean_init : CapData.init.Clean := by
  refine ⟨⟨rfl, rfl, rfl, rfl, rfl, fun _ => rfl, rfl, fun ds => ?_⟩, rfl, rfl⟩
  exact ⟨rfl, rfl, rfl, rfl, rfl, rfl⟩

theorem clean_iff_status : ∃ out, taskCapReqHn fineWorld (statusOf "a".toList) .init
    (oneFile "a".toList (List.replicate 64 1)) = some out ∧
      ((out.data.Clean ∧ out.data.AssertsHold) ↔ ¬ ShortStats fineWorld (statusOf "a".toList) .init
        (oneFile "a".toList (List.replicate 64 1))) := by
  have hsome : (taskCapReqHn fineWorld (statusOf "a".toList) .init
      (oneFile "a".toList (List.replicate 64 1))).map (fun out => out.activated) = some false := by
    decide +kernel
  obtain ⟨out, hout, hanswered⟩ := Option.map_eq_some_iff.1 hsome
  exact ⟨out, hout, clean_iff clean_init hout hanswered⟩

/-- A request for the status finds a file of one byte. -/
theorem not_clean : ¬ ∀ (w : CapWorld) (req : CapRequest) (d : CapData) (fs : FileSystem)
    (out : CapOutcome), d.Clean → taskCapReqHn w req d fs = some out → out.activated = false →
      out.data.Clean ∧ out.data.AssertsHold := by
  intro h
  have hleft : (taskCapReqHn fineWorld (statusOf "a".toList) .init (oneFile "a".toList [1])).map
      (fun out => (out.activated, out.data.job.core.st.ticks)) = some (false, 1) := by
    decide +kernel
  obtain ⟨out, hout, hdata⟩ := Option.map_eq_some_iff.1 hleft
  obtain ⟨hanswered, hticks⟩ := Prod.mk.inj hdata
  obtain ⟨hclean, -⟩ := h fineWorld _ .init _ out clean_init hout hanswered
  rw [hclean.st] at hticks
  cases hticks

end Tesd
