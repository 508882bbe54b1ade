import Tesd.Hist

/-!
# The jitter task

`tesd_task_jitter.c`: the delays between the events of a reference channel and those of the other
channels are counted in histograms, and each histogram is published after a configured number of
ticks.  `points` and `hists` are the memory from the start of these arrays on; that the arrays end
is not checked by the code.
-/

namespace Tesd

open LittleEndian

def TES_NCHANNELS : ℕ := 2

def TES_JITTER_NHISTS : ℕ := TES_NCHANNELS - 1

/-- `TES_JITTER_NBINS`, with the underflow and the overflow. -/
def TES_JITTER_NBINS : ℕ := 1022

/-- `MAX_SIMULT_POINTS`. -/
def MAX_SIMULT_POINTS : ℕ := 16

/-- `BIN_OFFSET`: the bin of delay 0. -/
def BIN_OFFSET : ℕ := 511

def UINT16_MAX : ℕ := 65535

/-- `struct s_conf_t`. -/
structure JitterConf where
  /-- publish and reset after that many -/
  ticks : ℕ
  refCh : ℕ

/-- `struct s_point_t`. -/
structure JitterPoint where
  /-- delay since last reference -/
  delaySince : ℕ
  /-- delay until next reference -/
  delayUntil : ℕ
  /-- histogram -/
  hid : ℤ
  /-- the channel of the event; this is not in the source, and no function looks at it -/
  ch : ℕ

/-- `struct s_subhist_t`. -/
structure SubHist where
  ch : ℕ
  bins : ℕ → ℕ

/-- `struct s_hist_t`. -/
structure JitterHist where
  refCh : ℕ
  nhists : ℕ
  hists : ℤ → SubHist

/-- A point that has been added to a histogram. -/
structure AddedPoint where
  hid : ℤ
  bin : ℤ
  /-- the channel in the header of the histogram -/
  histCh : ℕ
  /-- the channel of the event -/
  ch : ℕ

/-- `struct s_data_t` of the jitter task, with its socket. -/
structure JitterData where
  /-- current configuration -/
  curConf : JitterConf
  /-- to be applied at next histogram -/
  conf : JitterConf
  hist : JitterHist
  /-- number of ticks so far -/
  ticks : ℕ
  points : ℕ → JitterPoint
  /-- number of non-reference frames since last reference, plus one -/
  curNpts : ℕ
  /-- discard all frames until first tick -/
  publishing : Bool
  sock : PubSock
  /-- what `s_save_points` has added so far; this is not in the source -/
  added : List AddedPoint
  /-- every `dbg_assert` so far held; execution goes on past a failure, as without debugging -/
  dbg : Bool

/-- The histogram as it is sent. -/
def JitterHist.encode (hist : JitterHist) : List UInt8 :=
  List.replicate 6 0 ++ leBytes 1 hist.refCh ++ leBytes 1 hist.nhists ++
    ((List.range TES_JITTER_NHISTS).map fun h =>
      List.replicate 7 0 ++ leBytes 1 (hist.hists h).ch ++
        ((List.range TES_JITTER_NBINS).map fun b => leBytes 4 ((hist.hists h).bins b)).flatten).flatten

/-- The channels in the headers of `n` histograms, from channel `ch` on: the reference channel has
none. -/
def histChannels (refCh : ℕ) : ℕ → ℕ → List ℕ
  | 0, _ => []
  | n + 1, ch =>
    let ch := if ch = refCh then ch + 1 else ch
    ch :: histChannels refCh n (ch + 1)

namespace JitterData

/-- `dbg_assert`. -/
def dbgAssert (c : Bool) (d : JitterData) : JitterData := { d with dbg := d.dbg && c }

/-- `s_add_to_until`, for all but the last point. -/
def addToUntil (delay : ℕ) (d : JitterData) : JitterData :=
  { d with points := fun p =>
      if p < d.curNpts - 1 then
        { d.points p with delayUntil := min ((d.points p).delayUntil + delay) UINT16_MAX }
      else d.points p }

/-- `s_add_to_since`, for the last point. -/
def addToSince (delay : ℕ) (d : JitterData) : JitterData :=
  let last := d.points (d.curNpts - 1)
  let last := { last with delaySince := min (last.delaySince + delay) UINT16_MAX }
  { d with points := Function.update d.points (d.curNpts - 1) last }

/-- One turn of the loop of `s_save_points`. -/
def savePoint (d : JitterData) (p : ℕ) : JitterData :=
  let pt := d.points p
  let bin : ℤ := if pt.delaySince > pt.delayUntil then -pt.delayUntil else pt.delaySince
  let bin : ℤ := bin + BIN_OFFSET
  let bin : ℤ :=
    if bin < 0 then 0 else if bin ≥ TES_JITTER_NBINS then TES_JITTER_NBINS - 1 else bin
  let d := d.dbgAssert (decide (pt.hid < TES_JITTER_NHISTS) && decide (pt.hid ≥ 0))
  let sub := d.hist.hists pt.hid
  let bins := Function.update sub.bins bin.toNat ((sub.bins bin.toNat + 1) % 2 ^ 32)
  { d with
    hist := { d.hist with
      hists := Function.update d.hist.hists pt.hid { sub with bins := bins } }
    added := d.added ++ [⟨pt.hid, bin, sub.ch, pt.ch⟩] }

/-- `s_save_points`. -/
def savePoints (d : JitterData) : JitterData :=
  let d := (List.range (d.curNpts - 1)).foldl savePoint d
  { d with
    points := Function.update d.points 0 { d.points 0 with delaySince := 0, delayUntil := 0, hid := -1 }
    curNpts := 1 }

/-- A new point is added to the list. -/
def makeNew (ch : ℕ) (d : JitterData) : JitterData :=
  let d := d.dbgAssert (ch != d.curConf.refCh)
  if d.curNpts < MAX_SIMULT_POINTS - 1 then
    let hid : ℤ := if ch > d.curConf.refCh then ch - 1 else ch
    let entry := { d.points (d.curNpts - 1) with hid := hid, ch := ch }
    let ghost := { d.points d.curNpts with delaySince := entry.delaySince, delayUntil := 0, hid := -1 }
    { d with
      points := Function.update (Function.update d.points (d.curNpts - 1) entry) d.curNpts ghost
      curNpts := d.curNpts + 1 }
  else d

/-- One event of a frame; whether the handler goes on. -/
def event (pkt : Tespkt) (e : ℕ) (d : JitterData) : Bool × JitterData :=
  let isTick := pkt.isTick
  let d := d.dbgAssert (!(isTick || pkt.isTraceLong) || e == 0)
  let delay := pkt.eventToff e
  let ch := pkt.evtFlCH e
  let isRef := ch == d.curConf.refCh && !isTick
  if !isRef && d.curNpts == 0 then (false, d)
  else
    let d := d.addToUntil delay
    let d := if !isRef then d.addToSince delay else d
    let d := if isRef then d.savePoints else d
    let d := d.dbgAssert (decide (d.curNpts > 0))
    if !isRef && !isTick then (true, d.makeNew ch) else (true, d)

/-- The `n` events of a frame from event `e` on; whether the handler goes on. -/
def events (pkt : Tespkt) : ℕ → ℕ → JitterData → Bool × JitterData
  | 0, _, d => (true, d)
  | n + 1, e, d =>
    match d.event pkt e with
    | (false, d) => (false, d)
    | (true, d) => events pkt n (e + 1) d

/-- `s_prep_next`. -/
def prepNext (d : JitterData) : JitterData :=
  let d := { d with
    curConf := d.conf
    hist := ⟨d.conf.refCh, TES_JITTER_NHISTS, fun h =>
      if 0 ≤ h ∧ h < TES_JITTER_NHISTS then
        ⟨(histChannels d.conf.refCh TES_JITTER_NHISTS 0).getD h.toNat 0, fun _ => 0⟩
      else d.hist.hists h⟩
    ticks := 0 }
  if d.publishing then
    let d := d.dbgAssert (decide (d.curNpts > 0))
    { d.dbgAssert ((d.points (d.curNpts - 1)).hid == -1) with
      points := Function.update d.points 0 (d.points (d.curNpts - 1))
      curNpts := 1
      ticks := 1 }
  else d.dbgAssert (d.curNpts == 0)

/-- The end of `task_jitter_pkt_hn`: the histogram is published after the ticks it is over. -/
def publish (d : JitterData) : TaskRc × JitterData :=
  if d.ticks = (d.curConf.ticks + 1) % 2 ^ 64 then
    match d.sock.send d.hist.encode with
    | (false, sock) => (.error, { d with sock := sock })
    | (true, sock) =>
      let d := { d with sock := sock }.prepNext
      (.zero, d.dbgAssert (decide (d.ticks ≤ d.curConf.ticks)))
  else (.zero, d.dbgAssert (decide (d.ticks ≤ d.curConf.ticks)))

/-- The first tick is waited for. -/
def await (pkt : Tespkt) (d : JitterData) : JitterData :=
  let d := d.dbgAssert (decide (d.curConf.ticks > 0))
  let d := d.dbgAssert (decide (d.curNpts < MAX_SIMULT_POINTS))
  if !d.publishing && pkt.isTick then { d with publishing := true } else d

/-- Whether the events of a frame are looked at. -/
def takes (pkt : Tespkt) (err : ℕ) (d : JitterData) : Bool :=
  !(!d.publishing || err != 0 || !pkt.isEvent) && !(pkt.isTraceLong && !pkt.isHeader)

/-- A tick is counted. -/
def countTick (pkt : Tespkt) (d : JitterData) : JitterData :=
  if pkt.isTick then { d with ticks := (d.ticks + 1) % 2 ^ 64 } else d

end JitterData

/-- `task_jitter_pkt_hn`. -/
def taskJitterPktHn : PktHandler JitterData := fun v pkt _ _ err =>
  let d := v.data.await pkt
  if !d.takes pkt err then (.zero, d)
  else
    match (d.countTick pkt).events pkt pkt.eventNums 0 with
    | (false, d) => (.zero, d)
    | (true, d) => d.publish

/-- `task_jitter_req_hn`, with the reply. -/
def taskJitterReqHn (refCh : UInt8) (ticks : UInt64) (d : JitterData) : (ℕ × ℕ) × JitterData :=
  let d :=
    if ticks.toNat = 0 ∨ refCh.toNat > TES_JITTER_NHISTS then d
    else { d with conf := ⟨ticks.toNat, refCh.toNat⟩ }
  ((d.conf.refCh, d.conf.ticks), d)

/-- `task_jitter_init`. -/
def taskJitterInit (sends : ℕ → Bool) : JitterData where
  curConf := ⟨0, 0⟩
  conf := ⟨5, 0⟩
  hist := ⟨0, 0, fun _ => ⟨0, fun _ => 0⟩⟩
  ticks := 0
  points := fun _ => ⟨0, 0, 0, 0⟩
  curNpts := 0
  publishing := false
  sock := ⟨sends, 0, []⟩
  added := []
  dbg := true

/-- `task_jitter_wakeup`. -/
def taskJitterWakeup (d : JitterData) : Bool × JitterData :=
  (true, { d with points := fun _ => ⟨0, 0, 0, 0⟩, publishing := false, curNpts := 0 }.prepNext)

/-- The jitter task in its loop. -/
structure JitterTask where
  view : View JitterData
  active : Bool

/-- What happens to the jitter task: a frame is dispatched to it, a client sends a configuration, or
its subscribers have it activated or deactivated. -/
inductive JitterEvent
  | packet (call : Call)
  | request (refCh : UInt8) (ticks : UInt64)
  | activate
  | deactivate

/-- A call of the packet handler that returns `TASK_ERROR` ends the task's loop. -/
def jitterStep (e : JitterEvent) (t : JitterTask) : Option JitterTask :=
  match e with
  | .packet call =>
    if t.active then
      if (t.view.packet taskJitterPktHn call).1 = .error then none
      else some { t with view := (t.view.packet taskJitterPktHn call).2 }
    else some t
  | .request refCh ticks =>
    some { t with view := { t.view with data := (taskJitterReqHn refCh ticks t.view.data).2 } }
  | .activate =>
    some ⟨{ t.view with data := (taskJitterWakeup t.view.data).2 }, true⟩
  | .deactivate => some { t with active := false }

/-- The jitter task after its initialisation. -/
def jitterStart (sends : ℕ → Bool) : JitterTask := ⟨⟨0, 0, taskJitterInit sends⟩, false⟩

/-! ## Small frames -/

/-- A tick. -/
def jitterTick : Slot := .sample 48 0xB5 48 0 0 3 2 []

/-- A frame with one peak of the given channel. -/
def jitterPeak (ch delay : UInt8) : Slot := .sample 32 0xB5 32 0 0 1 0 [0, 0, 0, 0, ch, 0, delay]

end Tesd
