import Mathlib.Data.List.FinRange
import Tesd.Ring

/-!
# Tasks

The generic part of a task (`tesd_tasks.c`): its heads of the rings, its activation, and the wakeup
handler `s_sig_hn`, which hands the packets of the rings to the task's packet handler.  What a task
keeps in `data` and what its handlers do with it is arbitrary.
-/

namespace Tesd

/-- What a packet handler returns: `0`, `TASK_SLEEP` or `TASK_ERROR`. -/
inductive TaskRc
  | zero | sleep | error
  deriving DecidableEq, Repr

/-- What the coordinator signals to a task. -/
inductive Signal
  | wakeup | stop
  deriving DecidableEq, Repr

/-- `struct _task_t`. -/
structure Task (nr : ℕ) (δ : Type) where
  heads : Fin nr → ℕ
  prevFseq : ℕ
  prevPseqMca : ℕ
  prevPseqTr : ℕ
  justActivated : Bool
  error : Bool
  busy : Bool
  active : Bool
  data : δ

/-- The functions of a task: `pkt_handler`, given the packet, `flen`, `missed` and `err`, and
`data_wakeup`, which says whether it returned `0`.  No task has a `data_sleep`. -/
structure Hooks (nr : ℕ) (δ : Type) where
  pktHandler : Task nr δ → Tespkt → ℕ → ℕ → ℕ → TaskRc × δ
  dataWakeup : δ → Bool × δ

/-- A call of the packet handler. -/
structure Call where
  slot : Slot
  missed : ℕ

/-- The jump in the frame sequence, a `uint16_t`. -/
def fseqGap (cur prev : ℕ) : ℕ := (((cur : ℤ) - prev - 1) % 2 ^ 16).toNat

variable {nr : ℕ} {δ : Type}

/-! ## The slowest task's heads -/

/-- The static array of `tasks_get_heads`, and whether an active task has been found. -/
structure SlowestHeads (nr : ℕ) where
  heads : Fin nr → ℕ
  updated : Bool

namespace SlowestHeads

/-- The head of one ring of an active task. -/
def read (rings : Fin nr → Ring) (task : Task nr δ) (r : Fin nr) (h : SlowestHeads nr) :
    SlowestHeads nr :=
  { h with
    heads := Function.update h.heads r
      (if h.updated then (rings r).earlierId (h.heads r) (task.heads r) else task.heads r) }

/-- One task of the loop. -/
def look (rings : Fin nr → Ring) (h : SlowestHeads nr) (task : Task nr δ) : SlowestHeads nr :=
  if task.active then
    { (List.finRange nr).foldl (fun h r => h.read rings task r) h with updated := true }
  else h

end SlowestHeads

/-- `tasks_get_heads`. -/
def tasksGetHeads (rings : Fin nr → Ring) (tasks : List (Task nr δ)) : Option (Fin nr → ℕ) :=
  let h := tasks.foldl (SlowestHeads.look rings) ⟨fun _ => 0, false⟩
  if h.updated then some h.heads else none

namespace Task

/-! ## Activation -/

/-- `task_activate`. -/
def activate (hooks : Hooks nr δ) (rings : Fin nr → Ring) (task : Task nr δ) :
    TaskRc × Task nr δ :=
  match hooks.dataWakeup task.data with
  | (false, data) => (.error, { task with data := data })
  | (true, data) =>
    (.zero, { task with
      data := data
      heads := fun r => (rings r).head
      active := true
      justActivated := true })

/-- `task_deactivate`, given whether `zloop_reader` succeeds. -/
def deactivate (readersOk : Bool) (task : Task nr δ) : TaskRc × Task nr δ :=
  if readersOk then (.zero, { task with active := false }) else (.error, task)

/-! ## Packets -/

/-- The loop of `s_task_next_ring` for the first packets after an activation. -/
def firstRing (rings : Fin nr → Ring) :
    List (Fin nr) → Option (Fin nr) → Task nr δ → Option (Fin nr) × Task nr δ
  | [], next, task => (next, task)
  | r :: rs, next, task =>
    if (rings r).tail = task.heads r then firstRing rings rs next task
    else
      let curFseq := ((rings r).slot (task.heads r)).pkt.fseq
      if r.val = 0 ∨ (curFseq : ℤ) - task.prevFseq > 0x7FFF then
        firstRing rings rs (some r)
          { task with prevFseq := (((curFseq : ℤ) - 1) % 2 ^ 16).toNat }
      else firstRing rings rs next task

/-- The loop of `s_task_next_ring` for later packets, with the smallest gap so far. -/
def closestRing (rings : Fin nr → Ring) (task : Task nr δ) :
    List (Fin nr) → ℕ → Option (Fin nr) → Option (Fin nr) × ℕ
  | [], missed, next => (next, missed)
  | r :: rs, missed, next =>
    if (rings r).tail = task.heads r then closestRing rings task rs missed next
    else
      let gap := fseqGap ((rings r).slot (task.heads r)).pkt.fseq task.prevFseq
      if gap ≤ missed then
        if gap = 0 then (some r, gap) else closestRing rings task rs gap (some r)
      else closestRing rings task rs missed next

/-- `s_task_next_ring`: the ring with the next packet, if there is one, and the jump to it. -/
def nextRing (rings : Fin nr → Ring) (task : Task nr δ) : (Option (Fin nr) × ℕ) × Task nr δ :=
  if task.justActivated then
    let p := firstRing rings (List.finRange nr) none task
    ((p.1, 0), p.2)
  else (closestRing rings task (List.finRange nr) 0xFFFF none, task)

/-- What `s_task_dispatch` remembers of a packet. -/
def seen (pkt : Tespkt) (data : δ) (task : Task nr δ) : Task nr δ :=
  { task with
    data := data
    prevFseq := pkt.fseq
    prevPseqMca := if pkt.isMca then pkt.pseq else task.prevPseqMca
    prevPseqTr := if !pkt.isMca && pkt.isTraceLong then pkt.pseq else task.prevPseqTr }

/-- The end of a turn of the loop of `s_task_dispatch`. -/
def advance (rings : Fin nr → Ring) (r : Fin nr) (task : Task nr δ) : Task nr δ :=
  { task with heads := Function.update task.heads r ((rings r).following (task.heads r)) }

/-- `s_task_dispatch`, with the calls of the packet handler. -/
def dispatch (hooks : Hooks nr δ) (rings : Fin nr → Ring) (r : Fin nr) :
    ℕ → Task nr δ → Option (TaskRc × Task nr δ × List Call)
  | 0, _ => none
  | fuel + 1, task =>
    if task.heads r = (rings r).tail then some (.zero, task, [])
    else
      let slot := (rings r).slot (task.heads r)
      let gap := fseqGap slot.pkt.fseq task.prevFseq
      let (rc, data) := hooks.pktHandler task slot.pkt slot.flen gap slot.err
      let task := task.seen slot.pkt data
      if rc ≠ .zero then some (rc, task, [⟨slot, gap⟩])
      else
        (dispatch hooks rings r fuel (task.advance rings r)).map fun (rc, task, calls) =>
          (rc, task, ⟨slot, gap⟩ :: calls)

/-- The loop of `s_sig_hn`.  The jump that `s_task_next_ring` finds is only for an assertion. -/
def process (hooks : Hooks nr δ) (rings : Fin nr → Ring) (readersOk : Bool) (len : ℕ) :
    ℕ → Task nr δ → Option (Task nr δ × List Call)
  | 0, _ => none
  | fuel + 1, task =>
    match task.nextRing rings with
    | ((none, _), task) => some (task, [])
    | ((some r, _), task) =>
      match task.dispatch hooks rings r len with
      | none => none
      | some (rc, task, calls) =>
        let task := { task with justActivated := false }
        match rc with
        -- the return value of task_deactivate is dropped
        | .sleep => some ((task.deactivate readersOk).2, calls)
        | .error => some ({ task with error := true }, calls)
        | .zero => (process hooks rings readersOk len fuel task).map fun (task, more) =>
            (task, calls ++ more)

/-- `s_sig_hn`, with the calls of the packet handler. -/
def sigHn (hooks : Hooks nr δ) (rings : Fin nr → Ring) (readersOk : Bool) (fuel : ℕ) (sig : Signal)
    (task : Task nr δ) : Option (ℤ × Task nr δ × List Call) :=
  let task := { task with busy := true }
  if sig = .stop then some (-1, task, [])
  else if task.active = false then some (0, { task with busy := false }, [])
  else
    match task.process hooks rings readersOk fuel fuel with
    | none => none
    | some (task, calls) =>
      some (if task.error then -1 else 0, { task with busy := false }, calls)

end Task

end Tesd
