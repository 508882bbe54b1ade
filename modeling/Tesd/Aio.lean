import Mathlib.Data.Nat.ModEq
import Tesd.Lib.Slice

/-!
# Asynchronous writes of one data file

A stream or index file of the capture task is written with POSIX `aio`.  This file models one such
file together with the buffer zone it is written from (`struct s_aiobuf_t`) and the part of the
kernel that serves its single `aiocb`.  Addresses of the buffer zone are offsets from
`bufzone.base`, so `ceil` is `BUFSIZE`.

What the kernel does is a `Schedule`, arbitrary in every theorem: the fate of each batch that is
handed to `aio_write`, and the moments at which bytes of the request in flight are read from the
buffer zone.  `lost` is the kernel's own note that some call failed or wrote short.
-/

namespace Tesd

open Slice

/-- `BUFSIZE`: 10 MB. -/
def BUFSIZE : ℕ := 10485760

/-- `MINSIZE`: 500 kB. -/
def MINSIZE : ℕ := 512000

/-- `TESPKT_MTU`. -/
def MTU : ℕ := 1496

/-- The largest file offset, `off_t` being a signed 64-bit integer. -/
def OFF_MAX : ℕ := 2 ^ 63 - 1

/-- `size_t` arithmetic is modulo this. -/
def SIZE_MOD : ℕ := 2 ^ 64

/-- Error codes of the calls below.  `ECANCELED` is missing, as nobody calls `aio_cancel`. -/
inductive Errno
  | EAGAIN | EBADF | EFBIG | EINVAL | EIO | ENOSPC
  deriving DecidableEq, Repr

/-- How a request that `aio_write` accepted ends. -/
inductive Outcome
  | complete
  | short (n : ℕ)
  | failed (e : Errno)
  deriving DecidableEq, Repr

/-- What becomes of one batch: `aio_write` answers `EAGAIN` so many times, then refuses it for good
or accepts it; an accepted request is found in progress by so many polls, then ends. -/
structure Fate where
  again : ℕ
  refused : Option Errno
  polls : ℕ
  outcome : Outcome

/-- The behaviour of the kernel: the fate of the `i`-th batch, and the bytes (counted from the start
of the request in flight) that are read from memory at the `t`-th moment. -/
structure Schedule where
  fate : ℕ → Fate
  moves : ℕ → ℕ → Bool

/-- A request in flight: the fields of the `aiocb` it was made from, the polls that will still find
it in progress, its end, and the bytes already taken from memory to the file. -/
structure Request where
  offset : ℕ
  buf : ℕ
  nbytes : ℕ
  polls : ℕ
  outcome : Outcome
  moved : ℕ → Bool

namespace Request

/-- The byte count that `aio_return` reports.  A short write is shorter than the request. -/
def count (r : Request) : ℕ :=
  match r.outcome with
  | .complete => r.nbytes
  | .short n => min n (r.nbytes - 1)
  | .failed _ => 0

/-- The request once it is no longer in progress. -/
def ready (r : Request) : Request := { r with polls := 0 }

/-- The file after the bytes picked by `sel` have been taken from memory, each at most once. -/
def transfer (r : Request) (sel : ℕ → Bool) (mem file : ℕ → UInt8) : ℕ → UInt8 := fun k =>
  if r.offset ≤ k ∧ k < r.offset + r.nbytes ∧ sel (k - r.offset) = true ∧
      r.moved (k - r.offset) = false then
    mem (r.buf + (k - r.offset))
  else file k

end Request

/-- `struct s_aiobuf_t` with the memory of its buffer zone, the file and the kernel's state. -/
structure Aiobuf where
  /-- start of the bytes queued for `aio_write` -/
  tail : ℕ
  /-- address of the next packet -/
  cur : ℕ
  /-- bytes copied to the buffer since the last `aio_write` -/
  waiting : ℕ
  /-- bytes queued at the last `aio_write` -/
  enqueued : ℕ
  /-- bytes written -/
  size : ℕ
  /-- `aio_fildes` is not `-1` -/
  opened : Bool
  mem : ℕ → UInt8
  file : ℕ → UInt8
  request : Option Request
  /-- batches handed to `aio_write` so far -/
  batch : ℕ
  /-- moments that have passed -/
  clock : ℕ
  sched : Schedule
  /-- some call of the job failed or wrote short -/
  lost : Bool
  /-- every `dbg_assert` so far held; execution goes on past a failure, as without debugging -/
  dbg : Bool

namespace Aiobuf

/-- The state after `s_open_aiobuf` created an empty file. -/
def fresh (sched : Schedule) (mem : ℕ → UInt8) : Aiobuf where
  tail := 0
  cur := 0
  waiting := 0
  enqueued := 0
  size := 0
  opened := true
  mem := mem
  file := fun _ => 0
  request := none
  batch := 0
  clock := 0
  sched := sched
  lost := false
  dbg := true

/-- `dbg_assert`. -/
def dbgAssert (b : Aiobuf) (c : Bool) : Aiobuf := { b with dbg := b.dbg && c }

/-- A moment passes, in which the kernel reads some bytes of the request in flight. -/
def tick (b : Aiobuf) : Aiobuf :=
  match b.request with
  | none => { b with clock := b.clock + 1 }
  | some r =>
    { b with
      file := r.transfer (b.sched.moves b.clock) b.mem b.file
      request := some { r with moved := fun i => r.moved i || b.sched.moves b.clock i }
      clock := b.clock + 1 }

/-- `memcpy` into the buffer zone, byte by byte: the kernel may read between any two. -/
def memcpy : List UInt8 → ℕ → Aiobuf → Aiobuf
  | [], _, b => b
  | x :: xs, dst, b => memcpy xs (dst + 1) { b with mem := Function.update b.mem dst x }.tick

/-- What `aio_error` returns. -/
inductive Status
  | inProgress
  | zero
  | errno (e : Errno)
  deriving DecidableEq, Repr

/-- `aio_error`.  The report that a request is done is the last moment at which its bytes can be
read.  A block whose status was retrieved, or whose submission failed, gives `EINVAL`. -/
def aioError (b : Aiobuf) : Status × Aiobuf :=
  match b.request with
  | none => (.errno .EINVAL, { b with lost := true })
  | some r =>
    if r.polls ≠ 0 then
      (.inProgress, { b with request := some { r with polls := r.polls - 1 } }.tick)
    else
      match r.outcome with
      | .failed e => (.errno e, { b with lost := true })
      | _ => (.zero, { b with
          file := r.transfer (fun i => decide (i < r.count)) b.mem b.file
          request := some { r with moved := fun i => r.moved i || decide (i < r.count) } })

/-- `aio_suspend` without a timeout.  The task threads block every signal, so it returns `0`, when
the request is no longer in progress. -/
def aioSuspend (b : Aiobuf) : ℤ × Aiobuf :=
  (0, { b with request := b.request.map Request.ready }.tick)

/-- `aio_return` for a request that `aio_error` found done. -/
def aioReturn (b : Aiobuf) : Except Errno ℕ × Aiobuf :=
  match b.request with
  | none => (.error .EINVAL, { b with lost := true })
  | some r =>
    match r.outcome with
    | .failed e => (.error e, { b with request := none, lost := true })
    | _ => (.ok r.count,
        { b with request := none, lost := b.lost || decide (r.count ≠ r.nbytes) })

/-- The loop `do rc = aio_write (..) while (rc == -1 && errno == EAGAIN)`, by the number of times
the call will answer `EAGAIN`; then the errno of the last call, or `none` for success.  A write
past the largest offset is refused. -/
def aioWrite : ℕ → Aiobuf → Option Errno × Aiobuf
  | again + 1, b => aioWrite again b.tick
  | 0, b =>
    let fate := b.sched.fate b.batch
    let b := { b with batch := b.batch + 1 }
    match fate.refused with
    | some e => (some e, { b with lost := true })
    | none =>
      if b.size + b.enqueued > OFF_MAX then (some .EFBIG, { b with lost := true })
      else
        let r : Request :=
          { offset := b.size
            buf := b.tail
            nbytes := b.enqueued
            polls := fate.polls
            outcome := fate.outcome
            moved := fun _ => false }
        (none, { b with request := some r })

end Aiobuf

end Tesd
