import Tesd.Feed
import Tesd.Lib.Runs

/-!
# Tasks that serve one client at a time

The information, the capture and the average trace task: a request is read from a REP socket, the
reader of the socket is removed from the loop while the task is active, and the reply is sent by the
request handler, by the packet handler or by a timer.  A handler is given what it uses of the task;
the calls of `zmq` and `zloop` succeed.
-/

namespace Tesd

/-- The timers of a loop: the last number that `zloop_timer` has given to one, and the timers that
have neither expired nor been cancelled. -/
structure Timers where
  last : ℕ
  armed : List ℕ

namespace Timers

/-- `zloop_timer`, for a timer that expires once. -/
def start (timers : Timers) : ℕ × Timers :=
  (timers.last + 1, ⟨timers.last + 1, (timers.last + 1) :: timers.armed⟩)

/-- `zloop_timer_end`, and what the loop does with a timer that has expired. -/
def stop (id : ℕ) (timers : Timers) : Timers :=
  { timers with armed := timers.armed.filter (· ≠ id) }

end Timers

/-- What the handlers of a task work on: the task's own data, the timers of its loop, and the
replies sent. -/
structure RepData (δ ρ : Type) where
  own : δ
  timers : Timers
  replies : List ρ

namespace RepData

variable {δ ρ : Type}

/-- `zsock_send` on the task's frontend. -/
def reply (rep : ρ) (d : RepData δ ρ) : RepData δ ρ := { d with replies := d.replies ++ [rep] }

@[simp] theorem reply_replies (rep : ρ) (d : RepData δ ρ) :
    (d.reply rep).replies = d.replies ++ [rep] := rfl

end RepData

/-- A task in its loop, and how many requests it has received. -/
structure RepTask (δ ρ : Type) where
  view : View (RepData δ ρ)
  active : Bool
  /-- the handler of the frontend is registered with the loop -/
  reader : Bool
  requests : ℕ

/-- The handlers of a task: of its frontend, given the request, of its timers, and of packets.  The
first may end the process with a failed `assert`. -/
structure RepHandlers (κ δ ρ : Type) where
  reqHn : κ → RepTask δ ρ → Option (RepTask δ ρ)
  timeoutHn : RepTask δ ρ → RepTask δ ρ
  pktHn : PktHandler (RepData δ ρ)

/-- What happens in the loop of a task: a request is received, a timer expires, or a packet is
dispatched. -/
inductive RepEvent (κ : Type)
  | request (req : κ)
  | timer (id : ℕ)
  | packet (call : Call)

namespace RepTask

variable {κ δ ρ : Type}

/-- `task_activate`, for a task with one frontend that has `automute` set. -/
def activate (t : RepTask δ ρ) : RepTask δ ρ := { t with reader := false, active := true }

/-- `task_deactivate`, for a task with one frontend that has `automute` set. -/
def deactivate (t : RepTask δ ρ) : RepTask δ ρ := { t with reader := true, active := false }

def withData (t : RepTask δ ρ) (d : RepData δ ρ) : RepTask δ ρ :=
  { t with view := { t.view with data := d } }

/-- What `s_sig_hn` does with the packets, one of them. -/
def packet (h : RepHandlers κ δ ρ) (call : Call) (t : RepTask δ ρ) : Option (RepTask δ ρ) :=
  match t.view.packet h.pktHn call with
  | (.zero, v) => some { t with view := v }
  | (.sleep, v) => some { t with view := v }.deactivate
  | (.error, _) => none

/-- One event.  A request is only read while the reader is registered, and there is no packet for an
inactive task. -/
def step (h : RepHandlers κ δ ρ) (e : RepEvent κ) (t : RepTask δ ρ) : Option (RepTask δ ρ) :=
  match e with
  | .request req =>
    if t.reader then h.reqHn req { t with requests := t.requests + 1 } else none
  | .timer id =>
    if id ∈ t.view.data.timers.armed then
      some (h.timeoutHn (t.withData
        { t.view.data with timers := t.view.data.timers.stop id }))
    else none
  | .packet call => if t.active then t.packet h call else some t

/-- The packets that are dispatched to an active task. -/
def dispatched (e : RepEvent κ) (t : RepTask δ ρ) : List Slot :=
  match e with
  | .packet call => if t.active then [call.slot] else []
  | .request _ => []
  | .timer _ => []

/-- A wakeup with these packets. -/
def wakeup (batch : List Call) : List (RepEvent κ) := batch.map .packet

section Wakeup

variable {h : RepHandlers κ δ ρ} {t : RepTask δ ρ} {batch : List Call}

/-- A wakeup of an inactive task does nothing. -/
theorem run_wakeup_inactive (inactive : t.active = false) :
    Runs.run (step h) (wakeup batch) t = some t := by
  induction batch with
  | nil => rfl
  | cons call batch ih =>
    rw [wakeup, List.map_cons, Runs.run, step, if_neg (by simp [inactive])]
    exact ih

/-- A wakeup of an active task feeds its packet handler. -/
theorem run_wakeup (active : t.active = true) :
    Runs.run (step h) (wakeup batch) t =
      match t.view.feed h.pktHn batch with
      | (.zero, v) => some { t with view := v }
      | (.sleep, v) => some { t with view := v }.deactivate
      | (.error, _) => none := by
  induction batch generalizing t with
  | nil => rfl
  | cons call batch ih =>
    rw [wakeup, List.map_cons, Runs.run, step, if_pos active, packet, View.feed]
    rcases hp : t.view.packet h.pktHn call with ⟨rc, v⟩
    cases rc with
    | zero => exact ih (t := { t with view := v }) active
    | sleep =>
      change Runs.run (step h) (wakeup batch) { t with view := v }.deactivate = _
      exact run_wakeup_inactive rfl
    | error => rfl

/-- What `s_sig_hn` does to a task on a wakeup is a run over the packets it dispatches. -/
theorem run_of_sigHn {nr fuel : ℕ} {wake : RepData δ ρ → Bool × RepData δ ρ}
    {rings : Fin nr → Ring} {task task' : Task nr (RepData δ ρ)}
    (hview : t.view = task.view) (hactive : t.active = true) (active : task.active = true)
    (error : task.error = false)
    (hsig : task.sigHn (h.pktHn.hooks nr wake) rings true fuel .wakeup = some (0, task', batch)) :
    ∃ t', Runs.run (step h) (wakeup batch) t = some t' ∧ t'.view = task'.view ∧
      t'.active = task'.active := by
  obtain ⟨hfeed, hrc⟩ := Task.sigHn_feed hsig active error
  rw [run_wakeup hactive, hview]
  rcases hf : task.view.feed h.pktHn batch with ⟨rc, v⟩
  rw [hf] at hfeed hrc
  cases rc with
  | zero => exact ⟨_, rfl, hfeed, hactive.trans hrc.1.symm⟩
  | sleep => exact ⟨_, rfl, hfeed, hrc.1.symm⟩
  | error => exact absurd hrc.2 (by decide)

end Wakeup

end RepTask

end Tesd
