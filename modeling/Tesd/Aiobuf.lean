import Tesd.Aio

/-!
# The circular write buffer of the capture task

`s_queue_aiobuf`, `s_try_queue_aiobuf`, `s_flush` and `s_close_aiobuf` of `tesd_task_cap.c`.  Loops
whose end depends on the state take fuel and give `none` when it runs out.
-/

namespace Tesd

open Slice

/-- Return codes of `s_queue_aiobuf`: `0`, `EINPROGRESS`, `-1` and `-2`. -/
inductive QueueRc
  | zero
  | inProgress
  | error
  | unexpected
  deriving DecidableEq, Repr

/-- The test `jobrc < 0`. -/
def QueueRc.neg : QueueRc → Bool
  | .error | .unexpected => true
  | .zero | .inProgress => false

namespace Aiobuf

/-- `bufzone.enqueued + bufzone.waiting`. -/
def pending (b : Aiobuf) : ℕ := (b.enqueued + b.waiting) % SIZE_MOD

/-- `size + bufzone.waiting + bufzone.enqueued`: where the next byte will be in the file. -/
def position (b : Aiobuf) : ℕ := (b.size + b.waiting + b.enqueued) % SIZE_MOD

/-- From label `queue_as_is` of `s_queue_aiobuf` on. -/
def queueAsIs (b : Aiobuf) : QueueRc × Aiobuf :=
  let b := b.dbgAssert (decide (b.tail ≠ BUFSIZE))
  if b.enqueued = 0 then
    (.zero, b.dbgAssert (decide (b.waiting = 0)))
  else
    match b.aioWrite (b.sched.fate b.batch).again with
    | (some _, b) => (.error, b)
    | (none, b) => (.inProgress, b)

/-- The tail after the written bytes are released; at the end of the buffer zone it wraps. -/
def releasedTail (b : Aiobuf) : ℕ :=
  if b.tail + b.enqueued = BUFSIZE then 0 else b.tail + b.enqueued

/-- Size of the next batch when the tail is at `tail`: up to the cursor, or up to the end of the
buffer zone if the cursor has wrapped around. -/
def nextBatch (b : Aiobuf) (tail : ℕ) : ℕ :=
  if b.cur < tail then BUFSIZE - tail else b.cur - tail

/-- From label `prepare_next` of `s_queue_aiobuf` on. -/
def prepareNext (b : Aiobuf) : QueueRc × Aiobuf :=
  let tail := b.releasedTail
  let b := { b with size := b.size + b.enqueued, tail := tail }
  let b := b.dbgAssert (decide (b.tail < BUFSIZE))
  let b := { b with enqueued := b.nextBatch tail }
  let b := b.dbgAssert (decide (b.enqueued ≤ b.waiting))
  let b := { b with waiting := (b.waiting + SIZE_MOD - b.enqueued) % SIZE_MOD }
  let b := b.dbgAssert (decide (b.waiting = 0 ∨ b.tail + b.enqueued = BUFSIZE))
  b.queueAsIs

/-- The part of `s_queue_aiobuf` that checks how the previous batch ended, given its status. -/
def checkCompletion (rc : Status) (b : Aiobuf) : QueueRc × Aiobuf :=
  match rc with
  | .inProgress => (.error, b.dbgAssert false)
  | .errno _ => (.error, b)
  | .zero =>
    match b.aioReturn with
    | (.error .EAGAIN, b) => b.queueAsIs
    | (.error _, b) => (.error, b)
    | (.ok wrc, b) =>
      if wrc ≠ b.enqueued then (.unexpected, b.dbgAssert (decide (b.enqueued > 0)))
      else b.prepareNext

/-- `s_queue_aiobuf`. -/
def queueAiobuf (force : Bool) (b : Aiobuf) : QueueRc × Aiobuf :=
  if b.enqueued = 0 then b.prepareNext
  else
    match b.aioError with
    | (.inProgress, b) =>
      if !force then (.inProgress, b)
      else
        match b.aioSuspend with
        | (rc, b) =>
          if rc = -1 then (.error, b)
          else
            match b.aioError with
            | (rc, b) => b.checkCompletion rc
    | (rc, b) => b.checkCompletion rc

/-- The loop of `s_try_queue_aiobuf` that forces writing until there is space for a full frame. -/
def forceWrite : ℕ → QueueRc → Aiobuf → Option (QueueRc × Aiobuf)
  | 0, _, _ => none
  | fuel + 1, jobrc, b =>
    if b.pending > BUFSIZE - MTU ∧ jobrc = .inProgress then
      match b.queueAiobuf true with
      | (jobrc, b) => forceWrite fuel jobrc b
    else some (jobrc, b)

/-- The assertions on entry to `s_try_queue_aiobuf`. -/
def entryAsserts (b : Aiobuf) (len : ℕ) : Bool :=
  b.opened && decide (len > 0) && decide (b.pending ≤ BUFSIZE - MTU) &&
    decide (b.cur < BUFSIZE) && decide (b.tail + b.enqueued ≤ BUFSIZE) &&
    decide (b.cur < b.tail ∨ b.cur ≥ b.tail + b.enqueued) &&
    decide (b.cur + (if b.cur < b.tail then BUFSIZE else 0) = b.tail + b.enqueued + b.waiting)

/-- Copying `buf` to the cursor.  `reserve`, in the source, is `buf.length - (ceil - cur)`: the
bytes that go to the start of the buffer zone. -/
def copyIn (buf : List UInt8) (b : Aiobuf) : Aiobuf :=
  let space := BUFSIZE - b.cur
  let cur := b.cur
  let b :=
    if buf.length < space then { b.memcpy buf cur with cur := cur + buf.length }
    else { (b.memcpy (buf.take space) cur).memcpy (buf.drop space) 0 with
      cur := buf.length - space }
  { b with waiting := (b.waiting + buf.length) % SIZE_MOD }

/-- `s_try_queue_aiobuf`. -/
def tryQueueAiobuf (fuel : ℕ) (buf : List UInt8) (b : Aiobuf) : Option (QueueRc × Aiobuf) :=
  let b := b.dbgAssert (b.entryAsserts buf.length)
  let wrapped := decide (BUFSIZE - b.cur ≤ buf.length)
  let b := b.copyIn buf
  if b.waiting < MINSIZE ∧ wrapped = false ∧ b.pending ≤ BUFSIZE - MTU then some (.zero, b)
  else
    match b.queueAiobuf false with
    | (jobrc, b) =>
      (b.forceWrite fuel jobrc).map fun (jobrc, b) =>
        (jobrc, b.dbgAssert (decide (b.pending ≤ BUFSIZE - MTU)))

/-- The loop of `s_flush` for one file. -/
def flushAiobuf : ℕ → Aiobuf → Option Aiobuf
  | 0, _ => none
  | fuel + 1, b =>
    match b.queueAiobuf true with
    | (.inProgress, b) => flushAiobuf fuel b
    | (_, b) => some b

/-- The file that `s_close_aiobuf` leaves behind: truncated to `size`. -/
def closedFile (b : Aiobuf) : List UInt8 := slice b.file 0 b.size

/-- `s_close_aiobuf`, which also resets the buffer zone for the next job. -/
def closeAiobuf (b : Aiobuf) : Aiobuf :=
  if b.opened = false then b
  else { b with
    waiting := 0, enqueued := 0, opened := false, request := none, size := 0, cur := 0, tail := 0 }

/-- Appends the buffers in turn, up to and including the first one for which a negative value is
returned; gives the buffers appended and the state after the last call. -/
def appendAll (fuel : ℕ) : List (List UInt8) → Aiobuf → Option (List (List UInt8) × Aiobuf)
  | [], b => some ([], b)
  | d :: ds, b =>
    match b.tryQueueAiobuf fuel d with
    | none => none
    | some (jobrc, b) =>
      if jobrc.neg then some ([d], b)
      else (appendAll fuel ds b).map fun (done, b) => (d :: done, b)

end Aiobuf

end Tesd
