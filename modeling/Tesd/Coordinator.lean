import Tesd.Lib.Runs
import Tesd.Tasks

/-!
# The coordinator and its tasks

`s_new_pkts_hn` of `tesd.c`, and the system of rings, tasks and kernel around it.  Its actions are
atomic: whole calls of the coordinator's and the tasks' functions.
-/

namespace Tesd

/-- `struct stats_accumulated_t`. -/
structure Accumulated where
  received : ℕ
  missed : ℕ
  polled : ℕ
  skipped : ℕ
  deriving DecidableEq, Repr

namespace Ring

/-- The slot that `s_new_pkts_hn` moves the head of a ring to, if it moves it, given what
`tasks_get_heads` returned for the ring. -/
def newHead (head : Option ℕ) (ring : Ring) : Option ℕ :=
  if ring.tail = ring.head then none
  else
    let newHead := head.getD ring.tail
    if newHead = ring.head then none else some newHead

/-- The packets received and missed up to the new head, and the ring after their slots are
released. -/
def releaseTo (newHead : ℕ) (ring : Ring) : ℕ × ℕ × Ring :=
  let fseqA := (ring.slot ring.cur).pkt.fseq
  let fseqB := (ring.slot (ring.preceding newHead)).pkt.fseq
  let ring := ring.gotoBuf newHead
  let numNew := ring.done
  (numNew, (((fseqB : ℤ) - fseqA - numNew + 1) % 2 ^ 16).toNat, ring.releaseDoneBuf)

end Ring

/-- The rings, the tasks, `stats.latest`, and the tasks whose loop has ended. -/
structure Sys (nr nt : ℕ) (δ : Type) where
  rings : Fin nr → Ring
  tasks : Fin nt → Task nr δ
  latest : Accumulated
  ended : Fin nt → Bool

variable {nr nt : ℕ} {δ : Type}

/-- An atomic action.  `advance` is one turn of the loop of `s_task_dispatch`, without the handler;
`request` is what a task keeps of a client's request; `sigHn` is a whole call of the wakeup
handler. -/
inductive Action (nr nt : ℕ) (δ : Type)
  | deliver (r : Fin nr) (pkt : Slot)
  | advance (t : Fin nt) (r : Fin nr)
  | request (t : Fin nt) (data : δ)
  | activate (t : Fin nt)
  | deactivate (t : Fin nt) (readersOk : Bool)
  | sigHn (t : Fin nt) (sig : Signal) (readersOk : Bool)
  | newPkts (signalled : Bool)

namespace Sys

def taskList (s : Sys nr nt δ) : List (Task nr δ) := (List.finRange nt).map s.tasks

def setTask (t : Fin nt) (task : Task nr δ) (s : Sys nr nt δ) : Sys nr nt δ :=
  { s with tasks := Function.update s.tasks t task }

def setRing (r : Fin nr) (ring : Ring) (s : Sys nr nt δ) : Sys nr nt δ :=
  { s with rings := Function.update s.rings r ring }

/-- The loop of a task ends when its wakeup handler returns `-1`. -/
def setEnded (t : Fin nt) (rc : ℤ) (s : Sys nr nt δ) : Sys nr nt δ :=
  { s with ended := Function.update s.ended t (decide (rc = -1)) }

section Set

variable (s : Sys nr nt δ)

@[simp] theorem setTask_self (t : Fin nt) (task : Task nr δ) : (s.setTask t task).tasks t = task :=
  Function.update_self _ _ _

@[simp] theorem setTask_of_ne {t u : Fin nt} (h : u ≠ t) (task : Task nr δ) :
    (s.setTask t task).tasks u = s.tasks u :=
  Function.update_of_ne h _ _

theorem setTask_setTask (t : Fin nt) (task task' : Task nr δ) :
    (s.setTask t task).setTask t task' = s.setTask t task' := by
  unfold setTask
  dsimp only
  rw [Function.update_idem]

theorem setTask_eq_self (t : Fin nt) : s.setTask t (s.tasks t) = s := by
  unfold setTask
  rw [Function.update_eq_self]

@[simp] theorem setEnded_self (t : Fin nt) (rc : ℤ) :
    (s.setEnded t rc).ended t = decide (rc = -1) :=
  Function.update_self _ _ _

@[simp] theorem setEnded_of_ne {t u : Fin nt} (h : u ≠ t) (rc : ℤ) :
    (s.setEnded t rc).ended u = s.ended u :=
  Function.update_of_ne h _ _

@[simp] theorem setRing_self (r : Fin nr) (ring : Ring) : (s.setRing r ring).rings r = ring :=
  Function.update_self _ _ _

@[simp] theorem setRing_of_ne {r q : Fin nr} (h : q ≠ r) (ring : Ring) :
    (s.setRing r ring).rings q = s.rings q :=
  Function.update_of_ne h _ _

end Set

/-- The head of a ring moves on, and the packets are counted. -/
def moveHead (r : Fin nr) (newHead : ℕ) (s : Sys nr nt δ) : Sys nr nt δ :=
  let (numNew, missed, ring) := (s.rings r).releaseTo newHead
  { s.setRing r ring with latest := { s.latest with
      received := s.latest.received + numNew
      missed := s.latest.missed + missed } }

theorem moveHead_self (r : Fin nr) (newHead : ℕ) (s : Sys nr nt δ) :
    (s.moveHead r newHead).rings r = ((s.rings r).releaseTo newHead).2.2 :=
  setRing_self _ _ _

theorem moveHead_of_ne {r q : Fin nr} (h : q ≠ r) (newHead : ℕ) (s : Sys nr nt δ) :
    (s.moveHead r newHead).rings q = s.rings q :=
  setRing_of_ne _ h _

/-- One turn of the loop of `s_new_pkts_hn`; `p.2` is its variable `skipped`. -/
def releaseRing (heads : Option (Fin nr → ℕ)) (p : Sys nr nt δ × Bool) (r : Fin nr) :
    Sys nr nt δ × Bool :=
  match (p.1.rings r).newHead (heads.map (· r)) with
  | none => p
  | some newHead => (p.1.moveHead r newHead, false)

/-- `s_new_pkts_hn`, given whether all signals of `tasks_wakeup` could be sent. -/
def newPktsHn (signalled : Bool) (s : Sys nr nt δ) : ℤ × Sys nr nt δ :=
  let heads := tasksGetHeads s.rings s.taskList
  if !signalled then (-1, s)
  else
    let s := { s with latest := { s.latest with polled := s.latest.polled + 1 } }
    let (s, skipped) := (List.finRange nr).foldl (releaseRing heads) (s, true)
    (0, if skipped then { s with latest := { s.latest with skipped := s.latest.skipped + 1 } } else s)

/-- One action, if it can be taken.  A task whose loop has ended handles no more signals. -/
def step (hooks : Fin nt → Hooks nr δ) (fuel : ℕ) (a : Action nr nt δ) (s : Sys nr nt δ) :
    Option (Sys nr nt δ) :=
  match a with
  | .deliver r pkt => ((s.rings r).deliver pkt).map fun ring => s.setRing r ring
  | .advance t r =>
    if (s.tasks t).active = true ∧ (s.tasks t).heads r ≠ (s.rings r).tail then
      some (s.setTask t ((s.tasks t).advance s.rings r))
    else none
  | .request t data => some (s.setTask t { s.tasks t with data := data })
  | .activate t =>
    if (s.tasks t).active = false then
      some (s.setTask t ((s.tasks t).activate (hooks t) s.rings).2)
    else none
  | .deactivate t readersOk => some (s.setTask t ((s.tasks t).deactivate readersOk).2)
  | .sigHn t sig readersOk =>
    if s.ended t then none
    else
      ((s.tasks t).sigHn (hooks t) s.rings readersOk fuel sig).map fun (rc, task, _) => (s.setTask t task).setEnded t rc
  | .newPkts signalled => some (s.newPktsHn signalled).2

/-! ## A small system -/

/-- A tick with this sequence number. -/
def samplePkt (fseq : UInt8) : Slot := .sample 48 0xB5 48 fseq 0 3 2 [1]

/-- The only ring, and the only task, of the small system. -/
def sole : Fin 1 := 0

/-- One empty ring of four slots and one idle task. -/
def sample : Sys 1 1 Unit where
  rings := fun _ => ⟨4, 0, 0, 0, fun _ => samplePkt 0⟩
  tasks := fun _ => ⟨fun _ => 0, 0, 0, 0, false, false, false, false, ()⟩
  latest := ⟨0, 0, 0, 0⟩
  ended := fun _ => false

theorem sample_ok (r : Fin 1) : (sample.rings r).Ok := ⟨Nat.zero_lt_succ 3, Nat.zero_lt_succ 3⟩

/-- A packet handler that returns this for every packet. -/
def sampleHooks (rc : TaskRc) : Fin 1 → Hooks 1 Unit :=
  fun _ => ⟨fun _ _ _ _ _ => (rc, ()), fun _ => (true, ())⟩

end Sys

end Tesd
