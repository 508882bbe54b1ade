import Tesd.CapRequest
import Tesd.RepTask

/-!
# The capture task in its loop

The handlers of `tesd_task_cap.c` as those of a task that serves one client at a time.  The task has
no timers.  The rest of what a job depends on is fixed when its request comes in: how long the loops
around `aio_error` may go on, the outcomes at the end of the job, and what the uninitialised
`fidx.ftype` holds at each frame.
-/

namespace Tesd

/-- A request, and what the job that it may start depends on. -/
structure CapCall where
  world : CapWorld
  req : CapRequest
  fs : Posix.FileSystem
  fuel : ℕ
  env : Env
  junk : ℕ → UInt8

/-- The data of the task, and what the job in progress depends on. -/
structure CapOwn where
  data : CapData
  fuel : ℕ
  env : Env
  junk : ℕ → UInt8

abbrev CapTask := RepTask CapOwn CapReply

namespace CapData

/-- The end of a job: its files are closed, and the strings of the request are freed. -/
def endJob (job : Job) (d : CapData) : CapData :=
  { d.free with job := job, fildes := fun _ => none }

end CapData

/-- `task_cap_pkt_hn`, given the arguments of `s_task_dispatch`. -/
def capPktHn : PktHandler (RepData CapOwn CapReply) := fun v pkt flen missed err =>
  let own := v.data.own
  if h : flen < 2 ^ 16 ∧ (err = 0 → pkt.isValid = 0 ∧ flen = pkt.flen) then
    let f : Frame := ⟨pkt, flen, missed, err, own.junk own.data.job.core.st.frames, h.1, h.2⟩
    match taskCapPktHn own.fuel own.env f own.data.job with
    | none => (.error, v.data)
    | some (none, job) =>
      (.zero, { v.data with own := { own with data := { own.data with job := job } } })
    | some (some report, job) =>
      (.sleep, ({ v.data with own := { own with data := own.data.endJob job } } :
        RepData CapOwn CapReply).reply (statsReply report.status report.st))
  else (.error, v.data)

/-- `task_cap_req_hn`, on the task. -/
def capReqHn (call : CapCall) (self : CapTask) : Option CapTask :=
  match taskCapReqHn call.world call.req self.view.data.own.data call.fs with
  | none => none
  | some out =>
    let d := { self.view.data with own := ⟨out.data, call.fuel, call.env, call.junk⟩ }
    let d := match out.reply with
      | none => d
      | some rep => d.reply rep
    some (if out.activated then (self.withData d).activate else self.withData d)

/-- The handlers of the capture task. -/
def capHandlers : RepHandlers CapCall CapOwn CapReply := ⟨capReqHn, id, capPktHn⟩

/-- The capture task before its first request. -/
def capStart : CapTask :=
  ⟨⟨0, 0, ⟨⟨.init, 0, ⟨true, .ok⟩, fun _ => 0⟩, ⟨0, []⟩, []⟩⟩, false, true, 0⟩

/-- For a frame in a slot of a ring, the handler is that of the job. -/
theorem capPktHn_of_call (call : Call) (v : View (RepData CapOwn CapReply)) :
    v.handle capPktHn call =
      match taskCapPktHn v.data.own.fuel v.data.own.env
        (Frame.ofSlot call.slot call.missed (v.data.own.junk v.data.own.data.job.core.st.frames))
        v.data.own.data.job with
      | none => (.error, v.data)
      | some (none, job) =>
        (.zero, { v.data with
          own := { v.data.own with data := { v.data.own.data with job := job } } })
      | some (some report, job) =>
        (.sleep, ({ v.data with
          own := { v.data.own with data := v.data.own.data.endJob job } } :
            RepData CapOwn CapReply).reply (statsReply report.status report.st)) :=
  dif_pos ⟨call.slot.flen_lt, Slot.valid_of_err⟩

end Tesd
