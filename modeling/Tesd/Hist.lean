import Tesd.Feed

/-!
# The histogram task

`tesd_task_hist.c`: MCA frames are put together to histograms, and each complete histogram is
published.  `buf` is the memory from the start of the array `buf` on; that the array ends after
`TES_HIST_MAXSIZE` bytes is not checked by the code.
-/

namespace Tesd

open Slice LittleEndian

/-- `TES_HIST_MAXSIZE`. -/
def TES_HIST_MAXSIZE : ℕ := 65576

/-- A socket that messages are published on: which calls of `zmq_send` succeed, how many there were,
and the messages sent. -/
structure PubSock where
  sends : ℕ → Bool
  calls : ℕ
  published : List (List UInt8)

/-- `zmq_send`: whether it succeeds. -/
def PubSock.send (msg : List UInt8) (sock : PubSock) : Bool × PubSock :=
  if sock.sends sock.calls then
    (true, { sock with calls := sock.calls + 1, published := sock.published ++ [msg] })
  else (false, { sock with calls := sock.calls + 1 })

/-- `struct s_data_t` of the histogram task, with its socket. -/
structure HistData where
  /-- total number of bins in the histogram -/
  nbins : ℕ
  /-- number of received bins so far -/
  curNbins : ℕ
  /-- size of the histogram including its header -/
  size : ℕ
  /-- number of received bytes so far -/
  curSize : ℕ
  /-- discard all frames until the next header -/
  discard : Bool
  buf : ℕ → UInt8
  sock : PubSock
  /-- every `dbg_assert` so far held; execution goes on past a failure, as without debugging -/
  dbg : Bool

namespace HistData

/-- `dbg_assert`. -/
def dbgAssert (c : Bool) (hist : HistData) : HistData := { hist with dbg := hist.dbg && c }

/-- `s_clear`. -/
def clear (hist : HistData) : HistData :=
  { hist with nbins := 0, curNbins := 0, size := 0, curSize := 0, discard := false }

/-- A new header: what is left of the previous histogram is dropped, if it is to be discarded or has
bins. -/
def startHist (pkt : Tespkt) (hist : HistData) : HistData :=
  let hist := if hist.curNbins > 0 then { hist with discard := true } else hist
  let hist := if hist.discard then hist.clear else hist
  let hist := hist.dbgAssert (hist.nbins == 0 && hist.size == 0 && hist.curNbins == 0 &&
    hist.curSize == 0 && !hist.discard)
  { hist with nbins := pkt.mcaNbinsTot, size := pkt.mcaSize }

/-- The bins of the frame are counted; whether there are not too many. -/
def countBins (pkt : Tespkt) (hist : HistData) : Bool × HistData :=
  let hist := hist.dbgAssert !hist.discard
  let hist := { hist with curNbins := (hist.curNbins + pkt.mcaNbins) % 2 ^ 16 }
  if hist.curNbins > hist.nbins then (false, { hist with discard := true }) else (true, hist)

/-- The part of `task_hist_pkt_hn` before the copy, for a valid MCA frame: whether the frame is
copied. -/
def accept (prevPseqMca : ℕ) (pkt : Tespkt) (hist : HistData) : Bool × HistData :=
  if !pkt.isHeader then
    if hist.discard then (false, hist)
    else if ((pkt.pseq : ℤ) - prevPseqMca) % 2 ^ 16 ≠ 1 then (false, { hist with discard := true })
    else hist.countBins pkt
  else (hist.startHist pkt).countBins pkt

/-- The payload is copied to the end of what has been received. -/
def append (pkt : Tespkt) (flen : ℕ) (hist : HistData) : HistData :=
  let payload := Slot.payload pkt flen
  let hist := hist.dbgAssert (decide (hist.curSize ≤ TES_HIST_MAXSIZE - payload.length))
  { hist with
    buf := write hist.buf hist.curSize payload
    curSize := (hist.curSize + payload.length) % 2 ^ 32 }

/-- A histogram that has all its bins is sent. -/
def publish (hist : HistData) : TaskRc × HistData :=
  if hist.curNbins = hist.nbins then
    let hist := hist.dbgAssert (decide (hist.curSize = hist.size))
    match hist.sock.send (slice hist.buf 0 hist.curSize) with
    | (false, sock) => (.error, { hist with sock := sock })
    | (true, sock) => (.zero, { hist with sock := sock }.clear)
  else (.zero, hist.dbgAssert (decide (hist.curSize < hist.size)))

end HistData

/-- `task_hist_pkt_hn`. -/
def taskHistPktHn : PktHandler HistData := fun v pkt flen _ err =>
  if err ≠ 0 then (.zero, v.data)
  else if !pkt.isMca then (.zero, v.data)
  else
    match v.data.accept v.prevPseqMca pkt with
    | (false, hist) => (.zero, hist)
    | (true, hist) => (hist.append pkt flen).publish

/-- `task_hist_init`. -/
def taskHistInit (sends : ℕ → Bool) : HistData where
  nbins := 0
  curNbins := 0
  size := 0
  curSize := 0
  discard := true
  buf := fun _ => 0
  sock := ⟨sends, 0, []⟩
  dbg := true

/-- `task_hist_wakeup`. -/
def taskHistWakeup (hist : HistData) : Bool × HistData := (true, { hist.clear with discard := true })

/-- What happens to the histogram task: a frame is dispatched to it, or it is activated. -/
inductive HistEvent
  | packet (call : Call)
  | activate

/-- A call of the packet handler that returns `TASK_ERROR` ends the task's loop. -/
def histStep (e : HistEvent) (v : View HistData) : Option (View HistData) :=
  match e with
  | .packet call =>
    if (v.packet taskHistPktHn call).1 = .error then none
    else some (v.packet taskHistPktHn call).2
  | .activate => some { v with data := (taskHistWakeup v.data).2 }

/-! ## Small frames -/

/-- An MCA frame with these lengths and numbers, filled up with `fill`. -/
def mcaFrame (flen pseq lastBin : ℕ) (fill : UInt8) : Slot where
  pkt := fun i => ([0, 0, 0, 0, 0, 0, 0, 0, 0, 0, 0, 0, 0x88, 0xB6] ++ leBytes 2 flen ++ [0, 0] ++
    leBytes 2 pseq ++ [0, 0, 0, 0, 0, 0] ++ leBytes 2 lastBin ++ leBytes 8 0).getD i fill
  len := flen % 2 ^ 16
  len_lt := Nat.mod_lt _ (by decide)

/-- The histogram task after its initialisation, with a socket that never fails. -/
def histView : View HistData := ⟨0, 0, taskHistInit fun _ => true⟩

end Tesd
