import Tesd.Aiobuf
import Tesd.Slot

/-!
# The capture task

`task_cap_pkt_hn` of `tesd_task_cap.c`, and what ends a job.  A `Job` is the part of `s_data_t` that
the packet handler uses; everything in it but the eight write buffers is its `Core`.

Counters of 64 bits are natural numbers: every recorded frame adds `FIDX_LEN` bytes to the frame
index, which cannot grow past `OFF_MAX`.  The counters of 32 and 8 bits wrap around.
-/

namespace Tesd

open Slice LittleEndian

/-- The stream and index files. -/
inductive Dset
  | fidx | midx | tidx | ridx | bdat | mdat | tdat | edat
  deriving DecidableEq, Repr

/-- In the order of `s_dsets`. -/
def Dset.all : List Dset := [.fidx, .midx, .tidx, .ridx, .bdat, .mdat, .tdat, .edat]

theorem Dset.mem_all (ds : Dset) : ds ∈ all := by cases ds <;> decide

/-- Status of a reply to a capture request, `TES_CAP_REQ_*`. -/
inductive CapStatus
  | ok | einv | eabort | eperm | efail | ewrt | econv | efin
  deriving DecidableEq, Repr

def FIDX_LEN : ℕ := 16
def TIDX_LEN : ℕ := 8
def SIDX_LEN : ℕ := 16

def FTYPE_TICK : ℕ := 7
def FTYPE_MCA : ℕ := 8
def FTYPE_BAD : ℕ := 9

/-- `linear_etype`. -/
def linearEtype (pktType trType : ℕ) : ℕ :=
  if pktType = TESPKT_TYPE_TRACE then 3 + trType else pktType

/-- The arguments of one call of the packet handler.  A frame without an error is one that
`tespkt_is_valid` accepted and that its ring slot holds in full. -/
structure Frame where
  pkt : Tespkt
  flen : ℕ
  missed : ℕ
  err : ℕ
  /-- what the uninitialised `fidx.ftype` holds in this call -/
  junk : UInt8
  flen_lt : flen < 2 ^ 16
  valid : err = 0 → pkt.isValid = 0 ∧ flen = pkt.flen

namespace Frame

/-- The frame that `s_task_dispatch` passes on for a slot. -/
def ofSlot (slot : Slot) (missed : ℕ) (junk : UInt8) : Frame where
  pkt := slot.pkt
  flen := slot.flen
  missed := missed
  err := slot.err
  junk := junk
  flen_lt := slot.flen_lt
  valid := Slot.valid_of_err

/-- `paylen`, the difference `flen - TESPKT_HDR_LEN` as a `uint16_t`. -/
def paylen (f : Frame) : ℕ := (((f.flen : ℤ) - TESPKT_HDR_LEN) % 2 ^ 16).toNat

/-- The bytes from `datstart` on that are queued for the data file. -/
def payload (f : Frame) : List UInt8 := slice f.pkt TESPKT_HDR_LEN f.paylen

/-- The data file of a frame. -/
def dset (f : Frame) : Dset :=
  if f.err ≠ 0 then .bdat else if f.pkt.isMca then .mdat else if f.pkt.isTick then .tdat else .edat

end Frame

/-- `struct s_stats_t`. -/
structure Stats where
  ticks : ℕ
  events : ℕ
  traces : ℕ
  hists : ℕ
  frames : ℕ
  framesLost : ℕ
  framesDropped : ℕ
  errors : ℕ
  deriving DecidableEq, Repr

/-- `struct s_fidx_t`, with the fields of `struct s_ftype_t`. -/
structure Fidx where
  start : ℕ
  length : ℕ
  esize : ℕ
  changed : ℕ
  pt : ℕ
  reserved : ℕ
  hdr : Bool
  seq : Bool
  deriving DecidableEq, Repr

/-- The record as it lies in memory. -/
def Fidx.bytes (r : Fidx) : List UInt8 :=
  leBytes 8 r.start ++ leBytes 4 r.length ++ leBytes 2 r.esize ++ leBytes 1 r.changed ++
    leBytes 1 (r.pt + 16 * r.reserved + 64 * r.hdr.toNat + 128 * r.seq.toNat)

/-- `struct s_sidx_t` as it lies in memory. -/
def sidxBytes (start length : ℕ) : List UInt8 := leBytes 8 start ++ leBytes 8 length

/-- `cur_stream`. -/
structure CurStream where
  start : ℕ
  length : ℕ
  size : ℕ
  curSize : ℕ
  isEvent : Bool
  discard : Bool
  deriving DecidableEq, Repr

/-- `cur_tick`. -/
structure CurTick where
  startFrame : ℕ
  stopFrame : ℕ
  nframes : ℕ
  deriving DecidableEq, Repr

/-- `struct s_tidx_t` as it lies in memory. -/
def CurTick.bytes (t : CurTick) : List UInt8 := leBytes 4 t.startFrame ++ leBytes 4 t.stopFrame

/-- `struct s_data_t` without its buffers. -/
structure Core where
  st : Stats
  curStream : CurStream
  curTick : CurTick
  prevEsize : ℕ
  prevEtype : ℕ
  minTicks : ℕ
  minEvents : ℕ
  noconvert : Bool
  recording : Bool
  deriving DecidableEq, Repr

/-- What the end of a job depends on besides the job: the outcomes of `s_stats_write` and
`s_conv_data`. -/
structure Env where
  statsWritten : Bool
  conv : CapStatus

namespace Core

/-- A capture starts with the first tick. -/
def arrive (f : Frame) (c : Core) : Core :=
  if !c.recording && f.pkt.isTick then { c with recording := true } else c

def count (f : Frame) (c : Core) : Core :=
  { c with st := { c.st with
      frames := c.st.frames + 1
      framesLost := c.st.framesLost + f.missed } }

/-- The tick and frame indices: the frame's record but for its start, and the tick record that is
due, if one is. -/
def indexFrame (f : Frame) (c : Core) : Core × Fidx × Option (List UInt8) :=
  let fidx : Fidx :=
    { start := 0
      length := f.paylen
      esize := f.pkt.esize
      changed := 0
      pt := f.junk.toNat % 16
      reserved := f.junk.toNat / 16 % 4
      hdr := f.junk.toNat / 64 % 2 == 1
      seq := decide (f.missed > 0) }
  if f.err ≠ 0 then (c, { fidx with pt := FTYPE_BAD }, none)
  else if f.pkt.isMca then (c, { fidx with pt := FTYPE_MCA }, none)
  else if f.pkt.isTick then
    ({ c with curTick := { c.curTick with nframes := 0 } }, { fidx with pt := FTYPE_TICK },
      if c.st.ticks > 0 then some c.curTick.bytes else none)
  else
    let pt := linearEtype f.pkt.etypePKT f.pkt.etypeTR
    let changed := c.st.frames > 1 ∧ (c.prevEtype ≠ pt ∨ c.prevEsize ≠ f.pkt.esize)
    let curTick :=
      if c.curTick.nframes = 0 then { c.curTick with startFrame := (c.st.frames - 1) % 2 ^ 32 }
      else { c.curTick with stopFrame := (c.st.frames - 1) % 2 ^ 32 }
    ({ c with
        prevEsize := f.pkt.esize % 2 ^ 8
        prevEtype := pt
        curTick := { curTick with nframes := (c.curTick.nframes + 1) % 2 ^ 32 } },
      { fidx with pt := pt, changed := if changed then 1 else 0 }, none)

def continuesStream (f : Frame) (c : Core) : Bool :=
  ((f.pkt.isTraceLong && c.curStream.isEvent) || (f.pkt.isMca && !c.curStream.isEvent)) &&
    decide (c.curStream.size > 0) && !f.pkt.isHeader && decide (f.missed = 0)

def startsStream (f : Frame) (c : Core) : Bool :=
  (f.pkt.isTraceLong || f.pkt.isMca) && f.pkt.isHeader && decide (c.curStream.size = 0)

def interruptsStream (f : Frame) (c : Core) : Bool :=
  !c.continuesStream f && decide (c.curStream.size > 0)

/-- A stream that is given up, and whose further frames are to be ignored. -/
def discardStream (c : Core) : Core :=
  { c with curStream := { c.curStream with size := 0, curSize := 0, discard := true } }

/-- The header frame of a new stream. -/
def startStream (f : Frame) (start : ℕ) (c : Core) : Core :=
  { c with curStream := { c.curStream with
      size := if f.pkt.isTraceLong then f.pkt.traceSize else f.pkt.mcaSize
      isEvent := f.pkt.isTraceLong
      discard := false
      start := start } }

/-- The stream after its size so far was updated: too long, complete or neither. -/
def checkStream (isTrace : Bool) (c : Core) : Core × Option (Dset × List UInt8) :=
  if c.curStream.curSize > c.curStream.size then (c.discardStream, none)
  else if c.curStream.curSize = c.curStream.size then
    let st :=
      if isTrace then { c.st with events := c.st.events + 1, traces := c.st.traces + 1 }
      else { c.st with hists := c.st.hists + 1 }
    let aiosidx := if isTrace then Dset.ridx else Dset.midx
    ({ c with
        st := st
        curStream := { c.curStream with length := c.curStream.size, size := 0, curSize := 0 } },
      some (aiosidx, sidxBytes c.curStream.start c.curStream.size))
  else (c, none)

/-- A frame of a stream. -/
def extendStream (f : Frame) (c : Core) : Core × Option (Dset × List UInt8) :=
  checkStream f.pkt.isTraceLong
    { c with curStream := { c.curStream with curSize := c.curStream.curSize + f.paylen } }

/-- The statistics and the stream index: the header flag set in the frame's record or not, the
stream record that is due, if one is, and whether the job is done. -/
def indexStream (f : Frame) (start : ℕ) (fidx : Fidx) (c : Core) :
    Core × Fidx × Option (Dset × List UInt8) × Bool :=
  if f.err ≠ 0 then (c, fidx, none, false)
  else
    let continues := c.continuesStream f
    let starts := c.startsStream f
    let interrupts := c.interruptsStream f
    let c := if interrupts then c.discardStream else c
    if starts then
      let p := (c.startStream f start).extendStream f
      (p.1, { fidx with hdr := true }, p.2, false)
    else if continues then
      let p := c.extendStream f
      (p.1, fidx, p.2, false)
    else if f.pkt.isMca || f.pkt.isTraceLong then
      if !interrupts then
        ({ c with curStream := { c.curStream with discard := true } }, fidx, none, false)
      else (c, fidx, none, false)
    else if f.pkt.isTick then
      let c := { c with st := { c.st with ticks := c.st.ticks + 1 } }
      (c, fidx, none, decide (c.st.ticks > c.minTicks ∧ c.st.events ≥ c.minEvents))
    else
      ({ c with st := { c.st with events := c.st.events + f.pkt.eventNums } }, fidx, none, false)

/-- The status of the reply at the end of a job. -/
def finalStatus (env : Env) (c : Core) : CapStatus :=
  let status : CapStatus :=
    if c.minTicks > c.st.ticks ∨ c.minEvents > c.st.events then .ewrt else .ok
  let status := if status = .ok then (if env.statsWritten then .ok else .efin) else status
  if status = .ok ∧ c.noconvert = false then env.conv else status

/-- What `s_stats_send` leaves for the next job. -/
def reset (c : Core) : Core :=
  { c with
    st := ⟨0, 0, 0, 0, 0, 0, 0, 0⟩
    curStream := ⟨0, 0, 0, 0, false, false⟩
    curTick := ⟨0, 0, 0⟩
    recording := false }

end Core

/-- The job with its write buffers; `queued` notes every byte handed to `s_try_queue_aiobuf`. -/
structure Job where
  core : Core
  aio : Dset → Aiobuf
  queued : Dset → List UInt8

/-- The reply of a job, the files it leaves behind, what was queued for them, and whether some
write to them was lost. -/
structure Report where
  status : CapStatus
  st : Stats
  files : Dset → List UInt8
  queued : Dset → List UInt8
  lost : Dset → Bool

namespace Job

/-- A call of `s_try_queue_aiobuf` for a dataset: whether it returned a negative value. -/
def queue (fuel : ℕ) (ds : Dset) (buf : List UInt8) (job : Job) : Option (Bool × Job) :=
  match (job.aio ds).tryQueueAiobuf fuel buf with
  | none => none
  | some (jobrc, b) => some (jobrc.neg, { job with
      aio := Function.update job.aio ds b
      queued := Function.update job.queued ds (job.queued ds ++ buf) })

/-- Such a call for a record that may be due. -/
def queueDue (fuel : ℕ) (due : Option (Dset × List UInt8)) (job : Job) : Option (Bool × Job) :=
  match due with
  | none => some (false, job)
  | some (ds, buf) => job.queue fuel ds buf

/-- `s_flush` for the given datasets. -/
def flush (fuel : ℕ) : List Dset → Job → Option Job
  | [], job => some job
  | ds :: dss, job =>
    match (job.aio ds).flushAiobuf fuel with
    | none => none
    | some b => flush fuel dss { job with aio := Function.update job.aio ds b }

/-- `s_close` and `s_stats_send`: the reply, and the job as the next one finds it. -/
def close (status : CapStatus) (job : Job) : Report × Job :=
  ({ status := status
     st := job.core.st
     files := fun ds => (job.aio ds).closedFile
     queued := job.queued
     lost := fun ds => (job.aio ds).lost },
    { core := job.core.reset
      aio := fun ds => (job.aio ds).closeAiobuf
      queued := fun _ => [] })

/-- The end of a job in `task_cap_pkt_hn`. -/
def finish (fuel : ℕ) (env : Env) (job : Job) : Option (Report × Job) :=
  match job.flush fuel Dset.all with
  | none => none
  | some job => some (job.close (job.core.finalStatus env))

/-- `task_cap_fin` with a job in progress. -/
def fin (fuel : ℕ) (job : Job) : Option (Report × Job) :=
  match job.flush fuel Dset.all with
  | none => none
  | some job => some (job.close .ewrt)

end Job

/-- `task_cap_pkt_hn`: a report if it returns `TASK_SLEEP`, none if it returns `0`. -/
def taskCapPktHn (fuel : ℕ) (env : Env) (f : Frame) (job : Job) : Option (Option Report × Job) := do
  let core := job.core.arrive f
  if core.recording = false then
    some (none, { job with core := core })
  else
    let (core, fidx, tidx) := (core.count f).indexFrame f
    let (tidxFailed, job) ←
      { job with core := core }.queueDue fuel (tidx.map fun buf => (Dset.tidx, buf))
    let start := (job.aio f.dset).position
    let (core, fidx, sidx, done) := job.core.indexStream f start { fidx with start := start }
    let (sidxFailed, job) ← { job with core := core }.queueDue fuel sidx
    let (datFailed, job) ← job.queue fuel f.dset f.payload
    let (fidxFailed, job) ← job.queue fuel .fidx fidx.bytes
    if tidxFailed || done || sidxFailed || datFailed || fidxFailed then
      let (report, job) ← job.finish fuel env
      some (some report, job)
    else some (none, job)

/-- What a job starts from: the request, the kernel's behaviour for each file, and what earlier
jobs left in the buffer zones and in the fields that are not reset. -/
structure Setup where
  minTicks : ℕ
  minEvents : ℕ
  noconvert : Bool
  sched : Dset → Schedule
  mem : Dset → ℕ → UInt8
  prevEsize : ℕ
  prevEtype : ℕ

/-- The job once its files are open. -/
def openJob (s : Setup) : Job where
  core :=
    { st := ⟨0, 0, 0, 0, 0, 0, 0, 0⟩
      curStream := ⟨0, 0, 0, 0, false, false⟩
      curTick := ⟨0, 0, 0⟩
      prevEsize := s.prevEsize
      prevEtype := s.prevEtype
      minTicks := s.minTicks
      minEvents := s.minEvents
      noconvert := s.noconvert
      recording := false }
  aio := fun ds => Aiobuf.fresh (s.sched ds) (s.mem ds)
  queued := fun _ => []

/-- A whole job: the frames that were handled, and its report.  The handler ends it, or, if frames
stop arriving, `task_cap_fin` does. -/
def runJob (fuel : ℕ) (env : Env) : List Frame → Job → Option (List Frame × Report)
  | [], job => (job.fin fuel).map fun (report, _) => ([], report)
  | f :: fs, job =>
    match taskCapPktHn fuel env f job with
    | none => none
    | some (some report, _) => some ([f], report)
    | some (none, job) => (runJob fuel env fs job).map fun (handled, report) => (f :: handled, report)

/-- The job after the handler returned `0` for each of the frames. -/
def handleAll (fuel : ℕ) (env : Env) : List Frame → Job → Option Job
  | [], job => some job
  | f :: fs, job =>
    match taskCapPktHn fuel env f job with
    | some (none, job) => handleAll fuel env fs job
    | _ => none

/-- The frames that are recorded: all from the first tick on. -/
def recorded (handled : List Frame) : List Frame := handled.dropWhile fun f => !f.pkt.isTick

/-! ## Small jobs -/

/-- A kernel that completes every write at once. -/
def promptKernel : Schedule := ⟨fun _ => ⟨0, none, 0, .complete⟩, fun _ _ => false⟩

/-- A capture-only job that is done after one tick. -/
def smallJob : Setup := ⟨1, 0, true, fun _ => promptKernel, fun _ _ => 0, 0, 0⟩

def smallEnv : Env := ⟨true, .ok⟩

def Frame.ofSample (etherType flen pseq esize etype : UInt8) (payload : List UInt8) : Frame :=
  .ofSlot (.sample flen etherType flen 0 pseq esize etype payload) 0 0

def Frame.tick : Frame := .ofSample 0xB5 48 0 3 2 [1]

def Frame.peak : Frame := .ofSample 0xB5 32 0 1 0 [2, 3]

/-- The header frame of a trace of 24 bytes. -/
def Frame.traceHeader : Frame := .ofSample 0xB5 40 0 1 12 [24, 0, 4]

def Frame.traceRest : Frame := .ofSample 0xB5 32 1 1 12 [5, 6]

end Tesd
