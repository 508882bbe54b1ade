import Tesd.RepTask

/-!
# The information task

`tesd_task_info.c`: packets are counted for as long as the client asks, then the counts are sent.
-/

namespace Tesd

def TES_INFO_REQ_OK : ℕ := 0
def TES_INFO_REQ_EINV : ℕ := 1

/-- `struct s_data_t` of the information task. -/
structure InfoData where
  received : UInt64
  missed : UInt64
  bad : UInt64
  ticks : UInt64
  mcas : UInt64
  traces : UInt64
  events : UInt64
  deriving DecidableEq

/-- A reply, of picture `TES_INFO_REP_PIC`. -/
structure InfoRep where
  status : ℕ
  counts : InfoData
  deriving DecidableEq

/-- A request, of picture `TES_INFO_REQ_PIC`.  The reply to a malformed one is given two numbers
less than its picture asks for; what `zsock_send` finds in their place is `stray`. -/
structure InfoReq where
  timeout : UInt32
  stray : UInt64 × UInt64

abbrev InfoTask := RepTask InfoData InfoRep

/-- `task_info_pkt_hn`. -/
def taskInfoPktHn : PktHandler (RepData InfoData InfoRep) := fun v pkt _ missed err =>
  let info := v.data.own
  let isTrHeader := (pkt.isTraceLong && pkt.isHeader) || pkt.isTraceDp
  let isMcaHeader := pkt.isMca && pkt.isHeader
  let info :=
    { info with received := info.received + 1, missed := info.missed + UInt64.ofNat missed }
  let info :=
    if err ≠ 0 then { info with bad := info.bad + 1 }
    else if pkt.isTick then { info with ticks := info.ticks + 1 }
    else if isMcaHeader then { info with mcas := info.mcas + 1 }
    else if isTrHeader then { info with traces := info.traces + 1 }
    else { info with events := info.events + UInt64.ofNat pkt.eventNums }
  (.zero, { v.data with own := info })

/-- `task_info_req_hn`. -/
def taskInfoReqHn (req : InfoReq) (self : InfoTask) : InfoTask :=
  if req.timeout = 0 then
    self.withData (self.view.data.reply
      ⟨TES_INFO_REQ_EINV, ⟨0, 0, 0, 0, 0, req.stray.1, req.stray.2⟩⟩)
  else (self.withData { self.view.data with timers := self.view.data.timers.start.2 }).activate

/-- `s_timeout_hn` of the information task. -/
def infoTimeoutHn (self : InfoTask) : InfoTask :=
  let self := self.deactivate
  let d := self.view.data.reply ⟨TES_INFO_REQ_OK, self.view.data.own⟩
  self.withData { d with own := ⟨0, 0, 0, 0, 0, 0, 0⟩ }

/-- The handlers of the information task. -/
def infoHandlers : RepHandlers InfoReq InfoData InfoRep :=
  ⟨fun req self => some (taskInfoReqHn req self), infoTimeoutHn, taskInfoPktHn⟩

/-- The information task before its first request. -/
def infoStart : InfoTask := ⟨⟨0, 0, ⟨⟨0, 0, 0, 0, 0, 0, 0⟩, ⟨0, []⟩, []⟩⟩, false, true, 0⟩

end Tesd
