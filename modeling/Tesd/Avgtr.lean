import Tesd.RepTask

/-!
# The average trace task

`tesd_task_avgtr.c`: the first average trace after a request is put together from its frames and
sent to the client.  `buf` is the memory from the start of the array `buf` on; that the array ends
after `TES_AVGTR_MAXSIZE` bytes is not checked by the code.
-/

namespace Tesd

open Slice LittleEndian

/-- `TES_AVGTR_MAXSIZE`. -/
def TES_AVGTR_MAXSIZE : ℕ := 65528

def TES_AVGTR_REQ_OK : ℕ := 0
def TES_AVGTR_REQ_EINV : ℕ := 1
def TES_AVGTR_REQ_ETOUT : ℕ := 2
def TES_AVGTR_REQ_EERR : ℕ := 3

/-- A reply, of picture `TES_AVGTR_REP_PIC`. -/
structure AvgtrRep where
  status : ℕ
  trace : List UInt8
  deriving DecidableEq

/-- `struct s_data_t` of the average trace task. -/
structure AvgtrData where
  /-- returned by `zloop_timer` -/
  timer : ℕ
  size : ℕ
  /-- number of received bytes so far -/
  curSize : ℕ
  /-- if not set, discard all frames until the next header -/
  recording : Bool
  buf : ℕ → UInt8
  /-- every `dbg_assert` so far held; execution goes on past a failure, as without debugging -/
  dbg : Bool

namespace AvgtrData

/-- A header starts the trace. -/
def begin (pkt : Tespkt) (trace : AvgtrData) : AvgtrData :=
  if !trace.recording && pkt.isHeader then
    { trace with recording := true, size := pkt.traceSize }
  else trace

/-- The payload is copied to the end of what has been received. -/
def append (pkt : Tespkt) (flen : ℕ) (trace : AvgtrData) : AvgtrData :=
  let payload := Slot.payload pkt flen
  { trace with
    buf := write trace.buf trace.curSize payload
    curSize := (trace.curSize + payload.length) % 2 ^ 16
    dbg := trace.dbg &&
      decide ((trace.curSize : ℤ) ≤ ((TES_AVGTR_MAXSIZE : ℤ) - payload.length) % 2 ^ 32) }

/-- The stats are reset. -/
def reset (trace : AvgtrData) : AvgtrData :=
  { trace with recording := false, curSize := 0, size := 0 }

end AvgtrData

abbrev AvgtrTask := RepTask AvgtrData AvgtrRep

/-- The label `done` of `task_avgtr_pkt_hn`. -/
def avgtrDone (rep : AvgtrRep) (d : RepData AvgtrData AvgtrRep) :
    TaskRc × RepData AvgtrData AvgtrRep :=
  let d := { d with timers := d.timers.stop d.own.timer }.reply rep
  (.sleep, { d with own := d.own.reset })

/-- `task_avgtr_pkt_hn`. -/
def taskAvgtrPktHn : PktHandler (RepData AvgtrData AvgtrRep) := fun v pkt flen _ err =>
  if !pkt.isTraceAvg then (.zero, v.data)
  else
    let trace := v.data.own.begin pkt
    let d := { v.data with own := trace }
    if !trace.recording then (.zero, d)
    else if err ≠ 0 then avgtrDone ⟨TES_AVGTR_REQ_EERR, []⟩ d
    else if trace.curSize > 0 ∧ ((pkt.pseq : ℤ) - v.prevPseqTr) % 2 ^ 16 ≠ 1 then
      avgtrDone ⟨TES_AVGTR_REQ_EERR, []⟩ d
    else
      let trace := trace.append pkt flen
      let d := { v.data with own := trace }
      if trace.curSize = trace.size then
        avgtrDone ⟨TES_AVGTR_REQ_OK, slice trace.buf 0 trace.size⟩ d
      else (.zero, d)

/-- `task_avgtr_req_hn`, given the timeout that the client asks for. -/
def taskAvgtrReqHn (timeout : ℕ) (self : AvgtrTask) : AvgtrTask :=
  if timeout = 0 then self.withData (self.view.data.reply ⟨TES_AVGTR_REQ_EINV, []⟩)
  else
    let (tid, timers) := self.view.data.timers.start
    let trace := self.view.data.own
    let trace := { trace with dbg := trace.dbg && !trace.recording, timer := tid }
    (self.withData { self.view.data with own := trace, timers := timers }).activate

/-- `s_timeout_hn` of the average trace task. -/
def avgtrTimeoutHn (self : AvgtrTask) : AvgtrTask :=
  let self := self.deactivate
  self.withData (self.view.data.reply ⟨TES_AVGTR_REQ_ETOUT, []⟩)

/-- The handlers of the average trace task. -/
def avgtrHandlers : RepHandlers ℕ AvgtrData AvgtrRep :=
  ⟨fun timeout self => some (taskAvgtrReqHn timeout self), avgtrTimeoutHn, taskAvgtrPktHn⟩

/-- `task_avgtr_init`: the data is zero. -/
def taskAvgtrInit : AvgtrData := ⟨0, 0, 0, false, fun _ => 0, true⟩

/-- The average trace task before its first request. -/
def avgtrStart : AvgtrTask := ⟨⟨0, 0, ⟨taskAvgtrInit, ⟨0, []⟩, []⟩⟩, false, true, 0⟩

/-! ## Small frames -/

/-- A frame with eight bytes of a long trace of the given type, which declares `size` bytes. -/
def traceFrame (type pseq size : UInt8) : Slot where
  pkt := fun i => ([0, 0, 0, 0, 0, 0, 0, 0, 0, 0, 0, 0, 0x88, 0xB5, 32, 0, 0, 0, pseq, 0, 1, 0,
    type, 12, size] : List UInt8).getD i 0
  len := 32
  len_lt := by decide

/-! ## What a frame does -/

section Handler

variable {v : View (RepData AvgtrData AvgtrRep)} {call : Call}

/-- The trace a frame finds, once a header has started it. -/
def avgtrOpened (call : Call) (v : View (RepData AvgtrData AvgtrRep)) : AvgtrData :=
  v.data.own.begin call.slot.pkt

/-- Whether the frame is taken for part of the trace under way. -/
def Accepts (call : Call) (v : View (RepData AvgtrData AvgtrRep)) : Prop :=
  call.slot.pkt.isTraceAvg = true ∧ (avgtrOpened call v).recording = true ∧ call.slot.err = 0 ∧
    ((avgtrOpened call v).curSize > 0 →
      ((call.slot.pkt.pseq : ℤ) - v.prevPseqTr) % 2 ^ 16 = 1)

/-- What `task_avgtr_pkt_hn` does: it skips a frame, gives the trace up, completes it, or goes on.
-/
theorem avgtr_cases (call : Call) (v : View (RepData AvgtrData AvgtrRep)) :
    (v.handle taskAvgtrPktHn call = (.zero, v.data) ∧
        (call.slot.pkt.isTraceAvg = true → v.data.own.recording = false)) ∨
      (v.handle taskAvgtrPktHn call =
          avgtrDone ⟨TES_AVGTR_REQ_EERR, []⟩ { v.data with own := avgtrOpened call v } ∧
        (avgtrOpened call v).recording = true) ∨
      (Accepts call v ∧
        let trace := (avgtrOpened call v).append call.slot.pkt call.slot.flen
        v.handle taskAvgtrPktHn call =
          if trace.curSize = trace.size then
            avgtrDone ⟨TES_AVGTR_REQ_OK, slice trace.buf 0 trace.size⟩ { v.data with own := trace }
          else (.zero, { v.data with own := trace })) := by
  unfold View.handle taskAvgtrPktHn Accepts avgtrOpened
  by_cases avg : call.slot.pkt.isTraceAvg = true
  · rw [if_neg (by simp [avg])]
    dsimp only
    cases hrec : (v.data.own.begin call.slot.pkt).recording with
    | false =>
      have hsame : v.data.own.begin call.slot.pkt = v.data.own := by
        unfold AvgtrData.begin at hrec ⊢
        split_ifs at hrec ⊢
        · rfl
      rw [if_pos (by decide : (!false) = true), hsame]
      rw [hsame] at hrec
      exact Or.inl ⟨rfl, fun _ => hrec⟩
    | true =>
      rw [if_neg (by decide)]
      by_cases herr : call.slot.err = 0
      · rw [if_neg (not_not.2 herr)]
        by_cases hseq : (v.data.own.begin call.slot.pkt).curSize > 0 ∧
            ((call.slot.pkt.pseq : ℤ) - v.prevPseqTr) % 2 ^ 16 ≠ 1
        · rw [if_pos hseq]
          exact Or.inr (Or.inl ⟨rfl, rfl⟩)
        · rw [if_neg hseq]
          rw [not_and, ne_eq, not_not] at hseq
          exact Or.inr (Or.inr ⟨⟨avg, rfl, herr, hseq⟩, rfl⟩)
      · rw [if_pos herr]
        exact Or.inr (Or.inl ⟨rfl, rfl⟩)
  · rw [if_pos (by simp [avg])]
    exact Or.inl ⟨rfl, fun h => absurd h avg⟩

end Handler

end Tesd
