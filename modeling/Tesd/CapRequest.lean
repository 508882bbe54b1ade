import Tesd.Capture
import Tesd.Lib.FileSystem

/-!
# Capture requests

`task_cap_req_hn` of `tesd_task_cap.c` and what it calls, on the files under the data root.  A
string is the list of its characters without the zero that ends it.  An `assert` that fails ends the
process, which is `none`; there are no other processes that change files while the handler runs.
-/

namespace Tesd

open LittleEndian Posix

abbrev CStr := List Char

/-- `DATAROOT`. -/
def DATAROOT : CStr := "/media/data/captures/".toList

/-- `STAT_LEN`. -/
def STAT_LEN : ℕ := 64

def TES_H5_OVRWT_NONE : ℕ := 0
def TES_H5_OVRWT_RELINK : ℕ := 1
def TES_H5_OVRWT_FILE : ℕ := 2

def TES_CAP_AUTO : ℕ := 0
def TES_CAP_CAPONLY : ℕ := 1
def TES_CAP_CONVONLY : ℕ := 2

/-- The `extension` of `s_dsets`. -/
def Dset.extension : Dset → CStr
  | .fidx => "fidx".toList
  | .midx => "midx".toList
  | .tidx => "tidx".toList
  | .ridx => "ridx".toList
  | .bdat => "bdat".toList
  | .mdat => "mdat".toList
  | .tdat => "tdat".toList
  | .edat => "edat".toList

/-- The frames of a request, of picture `TES_CAP_REQ_PIC`; a string whose frame is missing is
`NULL`. -/
structure CapRequest where
  basefname : Option CStr
  measurement : Option CStr
  minTicks : UInt64
  minEvents : UInt64
  ovrwtmode : UInt8
  async : UInt8
  capmode : UInt8

/-- A reply, of picture `TES_CAP_REP_PIC`. -/
structure CapReply where
  status : CapStatus
  ticks : ℕ
  events : ℕ
  traces : ℕ
  hists : ℕ
  frames : ℕ
  framesLost : ℕ
  framesDropped : ℕ
  deriving DecidableEq, Repr

/-- `struct s_data_t` of the capture task: the job, the request, and the names and the open files of
the job. -/
structure CapData where
  job : Job
  basefname : Option CStr
  measurement : Option CStr
  ovrwtmode : ℕ
  async : ℕ
  capmode : ℕ
  /-- request is for status or conversion -/
  nocapture : Bool
  nooverwrite : Bool
  hdf5filename : CStr
  statfilename : CStr
  filename : Dset → CStr
  /-- the file with the descriptor `aio_fildes` -/
  fildes : Dset → Option Path
  /-- whether `statfd` is the descriptor of an open file -/
  statfd : Bool
  /-- every `dbg_assert` so far held; execution goes on past a failure, as without debugging -/
  dbg : Bool

/-- What the handler of a request depends on besides the files: what it may do with them, whether
memory can be allocated and the statistics read, how the writes to each data file will go, and what
`s_conv_data` does. -/
structure CapWorld where
  rights : Rights
  mallocOk : Bool
  readOk : Bool
  sched : Dset → Schedule
  conv : CapData → FileSystem → CapStatus × FileSystem

/-- The end of the handler: the task's data, the files, the reply that it has sent, if it has, and
whether it has called `task_activate`. -/
structure CapOutcome where
  data : CapData
  fs : FileSystem
  reply : Option CapReply
  activated : Bool

namespace CapData

/-- What `task_cap_init` leaves. -/
def init : CapData where
  job :=
    { core :=
        { st := ⟨0, 0, 0, 0, 0, 0, 0, 0⟩
          curStream := ⟨0, 0, 0, 0, false, false⟩
          curTick := ⟨0, 0, 0⟩
          prevEsize := 0
          prevEtype := 0
          minTicks := 0
          minEvents := 0
          noconvert := false
          recording := false }
      aio := fun _ =>
        { Aiobuf.fresh ⟨fun _ => ⟨0, none, 0, .complete⟩, fun _ _ => false⟩ (fun _ => 0) with
          opened := false }
      queued := fun _ => [] }
  basefname := none
  measurement := none
  ovrwtmode := 0
  async := 0
  capmode := 0
  nocapture := false
  nooverwrite := false
  hdf5filename := []
  statfilename := []
  filename := fun _ => []
  fildes := fun _ => none
  statfd := false
  dbg := true

def withCore (d : CapData) (core : Core) : CapData := { d with job := { d.job with core := core } }

@[simp] theorem withCore_capmode (d : CapData) (core : Core) :
    (d.withCore core).capmode = d.capmode := rfl

def dbgAssert (c : Bool) (d : CapData) : CapData := { d with dbg := d.dbg && c }

/-- The data with the frames of a request. -/
def recv (req : CapRequest) (d : CapData) : CapData :=
  { d with
    basefname := req.basefname
    measurement := req.measurement
    ovrwtmode := req.ovrwtmode.toNat
    async := req.async.toNat
    capmode := req.capmode.toNat }.withCore
    { d.job.core with minTicks := req.minTicks.toNat, minEvents := req.minEvents.toNat }

/-- `s_is_req_valid`. -/
def isReqValid (w : CapWorld) (d : CapData) : CapStatus × CapData :=
  if d.basefname = none then (.einv, d)
  else if d.measurement = none ∧ w.mallocOk = false then (.efail, d)
  else
    let d := { d with measurement := some (d.measurement.getD []) }
    if d.ovrwtmode ≠ TES_H5_OVRWT_NONE ∧ d.ovrwtmode ≠ TES_H5_OVRWT_RELINK ∧
        d.ovrwtmode ≠ TES_H5_OVRWT_FILE then (.einv, d)
    else if d.capmode ≠ TES_CAP_AUTO ∧ d.capmode ≠ TES_CAP_CAPONLY ∧
        d.capmode ≠ TES_CAP_CONVONLY then (.einv, d)
    else
      let minTicks :=
        if d.job.core.minEvents ≠ 0 ∧ d.job.core.minTicks = 0 then 1 else d.job.core.minTicks
      let nocapture := decide (minTicks = 0)
      let d := { d with nocapture := nocapture }.withCore { d.job.core with minTicks := minTicks }
      if (d.capmode = TES_CAP_CONVONLY ∧ nocapture = false) ∨
          (d.capmode = TES_CAP_CAPONLY ∧ nocapture = true) then (.einv, d)
      else
        let statusonly := nocapture && d.capmode != TES_CAP_CONVONLY
        let noconvert := statusonly || d.capmode == TES_CAP_CAPONLY
        (.ok, { d with nooverwrite := d.ovrwtmode == TES_H5_OVRWT_NONE }.withCore
          { d.job.core with noconvert := noconvert })

section Checks

variable {w : CapWorld} {d d' : CapData}

/-- The ticks that are asked for; one if only events are. -/
def askedTicks (d : CapData) : ℕ :=
  if d.job.core.minEvents ≠ 0 ∧ d.job.core.minTicks = 0 then 1 else d.job.core.minTicks

/-- What is checked of a request. -/
structure ReqOk (w : CapWorld) (d : CapData) : Prop where
  base : d.basefname ≠ none
  group : d.measurement ≠ none ∨ w.mallocOk = true
  ovrwtmode : d.ovrwtmode = TES_H5_OVRWT_NONE ∨ d.ovrwtmode = TES_H5_OVRWT_RELINK ∨
    d.ovrwtmode = TES_H5_OVRWT_FILE
  capmode : d.capmode = TES_CAP_AUTO ∨ (d.capmode = TES_CAP_CAPONLY ∧ d.askedTicks ≠ 0) ∨
    (d.capmode = TES_CAP_CONVONLY ∧ d.askedTicks = 0)

/-- The data after the checks of a valid request. -/
def checkedReq (d : CapData) : CapData :=
  { d with
    measurement := some (d.measurement.getD [])
    nocapture := decide (d.askedTicks = 0)
    nooverwrite := d.ovrwtmode == TES_H5_OVRWT_NONE }.withCore
    { d.job.core with
      minTicks := d.askedTicks
      noconvert := decide (d.askedTicks = 0) && d.capmode != TES_CAP_CONVONLY ||
        d.capmode == TES_CAP_CAPONLY }

/-- When `s_is_req_valid` returns 0, and what it leaves then. -/
theorem isReqValid_eq_ok_iff : d.isReqValid w = (.ok, d') ↔ d.ReqOk w ∧ d' = d.checkedReq := by
  unfold isReqValid
  dsimp only
  rw [← askedTicks, withCore_capmode]
  by_cases hbase : d.basefname = none
  · rw [if_pos hbase]
    exact iff_of_false (fun h => by cases h) fun h => h.1.base hbase
  rw [if_neg hbase]
  by_cases hgroup : d.measurement = none ∧ w.mallocOk = false
  · rw [if_pos hgroup]
    refine iff_of_false (fun h => by cases h) fun h => ?_
    rcases h.1.group with hsome | hmalloc
    · exact hsome hgroup.1
    · cases hgroup.2.symm.trans hmalloc
  rw [if_neg hgroup]
  by_cases hmode : d.ovrwtmode ≠ TES_H5_OVRWT_NONE ∧ d.ovrwtmode ≠ TES_H5_OVRWT_RELINK ∧
      d.ovrwtmode ≠ TES_H5_OVRWT_FILE
  · rw [if_pos hmode]
    refine iff_of_false (fun h => by cases h) fun h => ?_
    rcases h.1.ovrwtmode with h | h | h
    · exact hmode.1 h
    · exact hmode.2.1 h
    · exact hmode.2.2 h
  rw [if_neg hmode]
  by_cases hcap : d.capmode ≠ TES_CAP_AUTO ∧ d.capmode ≠ TES_CAP_CAPONLY ∧
      d.capmode ≠ TES_CAP_CONVONLY
  · rw [if_pos hcap]
    refine iff_of_false (fun h => by cases h) fun h => ?_
    rcases h.1.capmode with h | h | h
    · exact hcap.1 h
    · exact hcap.2.1 h.1
    · exact hcap.2.2 h.1
  rw [if_neg hcap]
  by_cases hfit : (d.capmode = TES_CAP_CONVONLY ∧ decide (d.askedTicks = 0) = false) ∨
      (d.capmode = TES_CAP_CAPONLY ∧ decide (d.askedTicks = 0) = true)
  · rw [if_pos hfit]
    refine iff_of_false (fun h => by cases h) fun h => ?_
    rw [decide_eq_false_iff_not, decide_eq_true_iff] at hfit
    rcases h.1.capmode with h | h | h
    · rcases hfit with hfit | hfit <;> cases h.symm.trans hfit.1
    · rcases hfit with hfit | hfit
      · cases h.1.symm.trans hfit.1
      · exact h.2 hfit.2
    · rcases hfit with hfit | hfit
      · exact hfit.2 h.2
      · cases h.1.symm.trans hfit.1
  · rw [if_neg hfit]
    have ok : d.ReqOk w := by
      rw [decide_eq_false_iff_not, decide_eq_true_iff] at hfit
      refine ⟨hbase, ?_, by simpa only [ne_eq, ← not_or, not_not] using hmode, ?_⟩
      · by_contra hno
        rw [not_or, not_not, Bool.not_eq_true] at hno
        exact hgroup hno
      · have hcap : d.capmode = TES_CAP_AUTO ∨ d.capmode = TES_CAP_CAPONLY ∨
            d.capmode = TES_CAP_CONVONLY := by simpa only [ne_eq, ← not_or, not_not] using hcap
        rcases hcap with h | h | h
        · exact .inl h
        · exact .inr (.inl ⟨h, fun hzero => hfit (.inr ⟨h, hzero⟩)⟩)
        · exact .inr (.inr ⟨h, by_contra fun hne => hfit (.inl ⟨h, hne⟩)⟩)
    rw [and_iff_right ok, Prod.mk.injEq, and_iff_right rfl]
    exact eq_comm

end Checks

end CapData

/-! ## File names -/

/-- What `s_canonicalize_path` returns, if it returns. -/
inductive Canonical
  | path (s : CStr)
  | null
  | abort

/-- The loop of `s_canonicalize_path` that creates directories, over the segments of the file name
before the last one. -/
def canonicalizeDirs (w : CapWorld) : List CStr → CStr → FileSystem → Option CStr × FileSystem
  | [], buf, fs => (some buf, fs)
  | seg :: segs, buf, fs =>
    -- multiple consecutive slashes
    if seg = [] then canonicalizeDirs w segs buf fs
    else if buf.length + (seg.length + 1) ≥ PATH_MAX then (none, fs)
    else
      let buf := buf ++ seg ++ ['/']
      match fs.mkdir w.rights buf with
      | (.error .EEXIST, fs) => canonicalizeDirs w segs buf fs
      | (.error _, fs) => (none, fs)
      | (.ok _, fs) => canonicalizeDirs w segs buf fs

/-- `memcmp` with `DATAROOT`. -/
def insideRoot (s : CStr) : Canonical := if DATAROOT.isPrefixOf s then .path s else .null

/-- `s_canonicalize_path`. -/
def canonicalizePath (w : CapWorld) (filename : CStr) (mustexist : Bool) (fs : FileSystem) :
    Canonical × FileSystem :=
  if filename = [] then (.null, fs)
  else if filename.getLast? = some '/' then (.null, fs)
  else
    match fs.realpath w.rights ((DATAROOT ++ filename).take (PATH_MAX - 1)) with
    | .ok s => (insideRoot s, fs)
    | .error e =>
      if mustexist then (.null, fs)
      else if e ≠ .ENOENT then (.null, fs)
      else
        let segs := filename.splitOn '/'
        match canonicalizeDirs w segs.dropLast DATAROOT fs with
        | (none, fs) => (.null, fs)
        | (some buf, fs) =>
          match fs.realpath w.rights buf with
          | .error _ => (.abort, fs)
          | .ok s =>
            let seg := segs.getLast?.getD []
            if seg = [] then (.abort, fs)
            else if seg.length + s.length ≥ PATH_MAX then (.null, fs)
            else (insideRoot ((s ++ '/' :: seg).take (PATH_MAX - 1)), fs)

namespace CapData

/-- The index and data files of `s_task_construct_filenames`. -/
def constructDataNames : List Dset → CapData → CapStatus × CapData
  | [], d => (.ok, d)
  | ds :: dss, d =>
    let name := d.statfilename ++ '.' :: ds.extension
    let d := { d with filename := Function.update d.filename ds (name.take (PATH_MAX - 1)) }
    if name.length ≥ PATH_MAX then (.efail, d) else constructDataNames dss d

/-- `s_task_construct_filenames`. -/
def constructFilenames (w : CapWorld) (d : CapData) (fs : FileSystem) :
    Option (CapStatus × CapData × FileSystem) :=
  let basefname := d.basefname.getD []
  let measurement := d.measurement.getD []
  let tmpfname := basefname ++ (if measurement = [] then [] else ['-']) ++ measurement
  if tmpfname.length ≥ PATH_MAX then some (.efail, d, fs)
  else
    match canonicalizePath w tmpfname d.nocapture fs with
    | (.abort, _) => none
    | (.null, fs) => some (if d.nocapture then .eabort else .eperm, d, fs)
    | (.path statfilename, fs) =>
      let d := { d with statfilename := statfilename }
      if '/' ∈ measurement then some (.eperm, d, fs)
      else
        match canonicalizePath w ((basefname ++ ".hdf5".toList).take (PATH_MAX - 1)) false fs with
        | (.abort, _) => none
        | (.null, fs) => some (.eperm, d, fs)
        | (.path hdf5filename, fs) =>
          let (rc, d) := { d with hdf5filename := hdf5filename }.constructDataNames Dset.all
          some (rc, d, fs)

/-! ## Opening and closing the data files -/

/-- The buffer of a file that has been opened and holds `data`. -/
def openedAiobuf (sched : Schedule) (data : List UInt8) (b : Aiobuf) : Aiobuf :=
  { b with
    opened := true
    file := fun i => data.getD i 0
    request := none
    batch := 0
    clock := 0
    sched := sched
    lost := false }

/-- `s_open_aiobuf`: whether it succeeds. -/
def openAiobuf (w : CapWorld) (excl : Bool) (ds : Dset) (d : CapData) (fs : FileSystem) :
    Bool × CapData × FileSystem :=
  let b := d.job.aio ds
  let d := d.dbgAssert (!b.opened && b.size == 0 && b.cur == b.tail && b.cur == 0 &&
    b.waiting == 0 && b.enqueued == 0)
  let (rc, fs) :=
    if !excl && fs.accessOk w.rights (d.filename ds) then fs.unlink w.rights (d.filename ds)
    else (none, fs)
  if rc ≠ none then (false, d, fs)
  else
    match (if excl then fs.openExcl w.rights (d.filename ds)
        else fs.openCreat w.rights (d.filename ds)) with
    | (.error _, fs) => (false, d, fs)
    | (.ok p, fs) =>
      let data := match fs.node p with
        | some (.file data) => data
        | _ => []
      (true, { d with
        fildes := Function.update d.fildes ds (some p)
        job := { d.job with
          aio := Function.update d.job.aio ds (openedAiobuf (w.sched ds) data b)
          queued := Function.update d.job.queued ds [] } }, fs)

/-- The loop of `s_open`. -/
def openAll (w : CapWorld) (excl : Bool) :
    List Dset → CapData → FileSystem → CapStatus × CapData × FileSystem
  | [], d, fs => (.ok, d, fs)
  | ds :: dss, d, fs =>
    match d.openAiobuf w excl ds fs with
    | (false, d, fs) => (if d.nooverwrite then .eabort else .efail, d, fs)
    | (true, d, fs) => openAll w excl dss d fs

/-- `s_open`. -/
def openFiles (w : CapWorld) (excl : Bool) (d : CapData) (fs : FileSystem) :
    CapStatus × CapData × FileSystem :=
  let core := d.job.core
  let d := d.dbgAssert (core.st == ⟨0, 0, 0, 0, 0, 0, 0, 0⟩ && core.curStream.size == 0 &&
    core.curStream.curSize == 0 && core.curTick.nframes == 0)
  d.openAll w excl Dset.all fs

/-- `s_close_aiobuf`. -/
def closeAiobuf (ds : Dset) (d : CapData) (fs : FileSystem) : CapData × FileSystem :=
  match d.fildes ds with
  | none => (d, fs)
  | some p =>
    ({ d with
      fildes := Function.update d.fildes ds none
      job := { d.job with
        aio := Function.update d.job.aio ds (d.job.aio ds).closeAiobuf
        queued := Function.update d.job.queued ds [] } },
      fs.truncate p (d.job.aio ds).size)

/-- `s_close`. -/
def closeFiles : List Dset → CapData → FileSystem → CapData × FileSystem
  | [], d, fs => (d, fs)
  | ds :: dss, d, fs => closeFiles dss (d.closeAiobuf ds fs).1 (d.closeAiobuf ds fs).2

/-! ## Replies -/

/-- The strings of the request are freed. -/
def free (d : CapData) : CapData := { d with basefname := none, measurement := none }

end CapData

/-- What `s_send_err` sends. -/
def errReply (status : CapStatus) : CapReply := ⟨status, 0, 0, 0, 0, 0, 0, 0⟩

/-- What `s_stats_send` sends. -/
def statsReply (status : CapStatus) (st : Stats) : CapReply :=
  ⟨status, st.ticks, st.events, st.traces, st.hists, st.frames, st.framesLost, st.framesDropped⟩

/-- `struct s_stats_t` as it lies in memory. -/
def Stats.bytes (st : Stats) : List UInt8 :=
  leBytes 8 st.ticks ++ leBytes 8 st.events ++ leBytes 8 st.traces ++ leBytes 8 st.hists ++
    leBytes 8 st.frames ++ leBytes 8 st.framesLost ++ leBytes 8 st.framesDropped ++
    leBytes 8 st.errors

/-- The record that these bytes are. -/
def Stats.ofBytes (bytes : List UInt8) : Stats :=
  let field (i : ℕ) : ℕ := ofLe ((bytes.drop (8 * i)).take 8)
  ⟨field 0, field 1, field 2, field 3, field 4, field 5, field 6, field 7⟩

namespace CapData

/-- `s_stats_read`.  A `read` that fails leaves the statistics as they are, and a short one fills in
the first of them. -/
def statsRead (w : CapWorld) (d : CapData) (fs : FileSystem) : CapStatus × CapData :=
  let d := d.dbgAssert !d.statfd
  match fs.openRead w.rights d.statfilename with
  | .error _ => (.efail, { d with statfd := false })
  | .ok contents =>
    let got : Option (List UInt8) := if w.readOk then contents.map (List.take STAT_LEN) else none
    let d := { d with statfd := true }
    let st := match got with
      | none => d.job.core.st
      | some got => Stats.ofBytes (got ++ d.job.core.st.bytes.drop got.length)
    let d := { d.withCore { d.job.core with st := st } with statfd := false }
    if got.map List.length ≠ some STAT_LEN then (.efail, d) else (.ok, d)

/-- `s_stats_send`, which succeeds. -/
def statsSend (status : CapStatus) (d : CapData) : CapReply × CapData :=
  let d := d.dbgAssert !d.statfd
  (statsReply status d.job.core.st, (d.withCore d.job.core.reset).free)

/-- `s_send_err` and the end of the handler. -/
def refuse (status : CapStatus) (d : CapData) (fs : FileSystem) : CapOutcome :=
  ⟨d.free, fs, some (errReply status), false⟩

/-- The status or convert query. -/
def query (w : CapWorld) (d : CapData) (fs : FileSystem) : CapOutcome :=
  let (rc, fs) := if d.job.core.noconvert then (CapStatus.ok, fs) else w.conv d fs
  if rc ≠ .ok then d.refuse rc fs
  else
    match d.statsRead w fs with
    | (.ok, d) => ⟨(d.statsSend .ok).2, fs, some (d.statsSend .ok).1, false⟩
    | (rc, d) => d.refuse rc fs

/-- The write query. -/
def start (w : CapWorld) (d : CapData) (fs : FileSystem) : CapOutcome :=
  match d.openFiles w d.nooverwrite fs with
  | (.ok, d, fs) =>
    -- the stat file is unlinked to prevent permission errors later when writing
    let (rc, fs) :=
      if fs.accessOk w.rights d.statfilename then fs.unlink w.rights d.statfilename
      else (none, fs)
    if rc ≠ none then
      let (d, fs) := d.free.closeFiles Dset.all fs
      ⟨d, fs, some (errReply .efail), false⟩
    else ⟨d, fs, none, true⟩
  | (rc, d, fs) =>
    let (d, fs) := d.free.closeFiles Dset.all fs
    ⟨d, fs, some (errReply rc), false⟩

end CapData

/-- `task_cap_req_hn`. -/
def taskCapReqHn (w : CapWorld) (req : CapRequest) (d : CapData) (fs : FileSystem) :
    Option CapOutcome :=
  let d := (d.dbgAssert !d.job.core.recording).recv req
  match d.isReqValid w with
  | (.ok, d) =>
    match d.constructFilenames w fs with
    | none => none
    | some (.ok, d, fs) => some (if d.nocapture then d.query w fs else d.start w fs)
    | some (rc, d, fs) => some (d.refuse rc fs)
  | (rc, d) => some (d.refuse rc fs)

/-- The handler of a request refuses it, finds that its files cannot be named, or does what it asks
for. -/
theorem taskCapReqHn_cases {w : CapWorld} {req : CapRequest} {d : CapData} {fs : FileSystem}
    {out : CapOutcome} (h : taskCapReqHn w req d fs = some out) :
    (∃ rc d₁, ((d.dbgAssert !d.job.core.recording).recv req).isReqValid w = (rc, d₁) ∧ rc ≠ .ok ∧
        out = d₁.refuse rc fs) ∨
      ∃ d₁, ((d.dbgAssert !d.job.core.recording).recv req).isReqValid w = (.ok, d₁) ∧
        ((∃ rc d₂ fs₁, d₁.constructFilenames w fs = some (rc, d₂, fs₁) ∧ rc ≠ .ok ∧
            out = d₂.refuse rc fs₁) ∨
          ∃ d₂ fs₁, d₁.constructFilenames w fs = some (.ok, d₂, fs₁) ∧
            out = if d₂.nocapture then d₂.query w fs₁ else d₂.start w fs₁) := by
  unfold taskCapReqHn at h
  dsimp only at h
  split at h
  next d₁ hchecks =>
    refine Or.inr ⟨d₁, hchecks, ?_⟩
    split at h
    · cases h
    next d₂ fs₁ hnames => exact Or.inr ⟨d₂, fs₁, hnames, (Option.some.inj h).symm⟩
    next rc d₂ fs₁ hno hnames =>
      exact Or.inl ⟨rc, d₂, fs₁, hnames, hno, (Option.some.inj h).symm⟩
  next rc d₁ hno hchecks => exact Or.inl ⟨rc, d₁, hchecks, hno, (Option.some.inj h).symm⟩

end Tesd
