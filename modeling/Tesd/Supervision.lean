import Tesd.Lib.Pipe
import Tesd.Lib.Runs
import Tesd.TaskErrors

/-!
# The threads of the tasks

How the coordinator starts, wakes up and stops the threads of the tasks (`tasks_start`,
`tasks_wakeup`, `tasks_destroy` and the functions they call), and the life of such a thread in
`s_task_shim`.  They signal each other through the two pipes of a zactor; between two such points
the steps of the threads come in any order.

A pipe holds any number of messages.  A signal of the operating system comes while the coordinator
is blocked in a call.
-/

namespace Tesd

open Runs

def SIG_INIT : ℕ := 0
def SIG_STOP : ℕ := 1
def SIG_DIED : ℕ := 2
def SIG_WAKEUP : ℕ := 3

/-- What goes through the pipe of a zactor: a signal with its status, or the string `"$TERM"`. -/
inductive PipeMsg
  | signal (status : ℕ)
  | term
  deriving DecidableEq

namespace PipeMsg

/-- What `zsock_wait` waits for. -/
def status : PipeMsg → Option ℕ
  | signal n => some n
  | term => none

/-- What a thread signals first, so that `zactor_new` returns. -/
abbrev hello : PipeMsg := signal 0

abbrev init : PipeMsg := signal SIG_INIT

abbrev died : PipeMsg := signal SIG_DIED

/-- What `s_thread_shim` signals at the end of a thread. -/
abbrev bye : PipeMsg := signal 0

abbrev wakeup : PipeMsg := signal SIG_WAKEUP

abbrev stop : PipeMsg := signal SIG_STOP

end PipeMsg

/-- Where the thread of a task is.  `born` is before its first signal, `opening` before `SIG_INIT`
and `handling` in `s_sig_hn`, with packets to process; `cleanup` is the label, `returned` after
`s_task_shim`, and `exited` when its end of the pipe is destroyed. -/
inductive ThreadAt
  | unborn | born | opening | activating | polling | handling | cleanup | finishing | returned
  | exited
  deriving DecidableEq

/-- The thread has left its loop, and `s_task_shim` has signalled that it died, if it did. -/
def ThreadAt.Past : ThreadAt → Prop
  | .finishing | .returned | .exited => True
  | _ => False

/-- The thread has left its loop. -/
def ThreadAt.Left : ThreadAt → Prop
  | .cleanup | .finishing | .returned | .exited => True
  | _ => False

/-- What the coordinator and the thread of a task share: the flags, `shim` unless it is `NULL`, and
the two directions of its pipe. -/
structure Peer where
  place : ThreadAt
  active : Bool
  busy : Bool
  error : Bool
  shim : Bool
  up : Pipe PipeMsg
  down : Pipe PipeMsg
  deriving DecidableEq

/-- A step of the thread of a task.  `request` is a call of a handler of a frontend or of a timer,
and `ends` says whether it returns `-1`; `signal` is the start of a call of `s_sig_hn`, and
`handled` its end, given what the packet handler has returned last. -/
inductive ThreadStepOf
  | hello
  | setUp (ok : Bool)
  | activate (ok : Bool)
  | request (active ends : Bool)
  | signal
  | handled (rc : TaskRc) (readersOk : Bool)
  | cleanup
  | fin
  | exit
  deriving DecidableEq

namespace Peer

def unborn : Peer := ⟨.unborn, false, false, false, false, .empty, .empty⟩

/-- The flags after `s_sig_hn` has processed packets. -/
def conclude (rc : TaskRc) (readersOk : Bool) (p : Peer) : Peer :=
  { p with
    busy := false
    active := p.active && !(rc == .sleep && readersOk)
    error := p.error || rc == .error }

/-- A step of a thread; `autoactivate` is the field of the task. -/
def step (autoactivate : Bool) : ThreadStepOf → Peer → Option Peer
  | .hello, p =>
    if p.place = .born then some { p with place := .opening, up := p.up.send .hello } else none
  | .setUp ok, p =>
    if p.place ≠ .opening then none
    else if ok = true then
      some { p with
        place := if autoactivate then .activating else .polling
        up := p.up.send .init }
    else some { p with place := .cleanup, error := true }
  | .activate ok, p =>
    if p.place ≠ .activating then none
    else if ok = true then some { p with place := .polling, active := true }
    else some { p with place := .cleanup, error := true }
  | .request active ends, p =>
    if p.place = .polling then
      some { p with active := active, place := if ends then .cleanup else .polling }
    else none
  | .signal, p =>
    if p.place ≠ .polling then none
    else
      (p.down.recv PipeMsg.status).map fun (sig, down) =>
        let p := { p with down := down }
        if sig = SIG_STOP then { p with busy := true, place := .cleanup }
        else if p.active = false then p
        else { p with busy := true, place := .handling }
  | .handled rc readersOk, p =>
    if p.place ≠ .handling then none
    else
      let p := p.conclude rc readersOk
      some { p with place := if p.error then .cleanup else .polling }
  | .cleanup, p =>
    if p.place = .cleanup then
      some { p with
        place := .finishing
        up := if p.error then p.up.send .died else p.up }
    else none
  | .fin, p => if p.place = .finishing then some { p with place := .returned } else none
  | .exit, p =>
    if p.place = .returned then some { p with place := .exited, up := p.up.send .bye } else none

end Peer

/-- Where the coordinator is.  The lists are the tasks that a loop has still to do. -/
inductive CoordinatorAt (nt : ℕ)
  /-- in `tasks_start` -/
  | starting (ts : List (Fin nt))
  /-- in `zactor_new`, waiting for the first signal of the thread -/
  | created (t : Fin nt) (ts : List (Fin nt))
  /-- in `s_task_start`, waiting for the second one -/
  | started (t : Fin nt) (ts : List (Fin nt))
  | polling
  /-- in `tasks_wakeup` -/
  | waking (ts : List (Fin nt))
  /-- about to send `SIG_WAKEUP` to a task that was active and not busy -/
  | sending (t : Fin nt) (ts : List (Fin nt))
  /-- in `tasks_destroy` -/
  | stopping (ts : List (Fin nt))
  /-- in `zactor_destroy`, about to send `"$TERM"` -/
  | stopped (t : Fin nt) (ts : List (Fin nt))
  /-- in `zactor_destroy`, waiting for the thread -/
  | joining (t : Fin nt) (ts : List (Fin nt))
  /-- `s_coordinator_body` has returned -/
  | returned
  /-- an assertion has failed -/
  | aborted
  deriving DecidableEq

/-- The coordinator and the tasks. -/
structure Daemon (nt : ℕ) where
  place : CoordinatorAt nt
  peers : Fin nt → Peer

/-- A step of the daemon.  `register` is what `s_coordinator_body` does between `tasks_start` and
the loop; `die` is a call of `s_die_hn`; `stop`, `term` and `join` are what `s_task_stop` does. -/
inductive DaemonStep (nt : ℕ)
  | zactorNew
  | handshake
  | taskStart
  | register (ok : Bool)
  | newPkts
  | look
  | send
  | die (t : Fin nt)
  | interrupt
  | stop
  | term
  | join
  | thread (t : Fin nt) (a : ThreadStepOf)
  deriving DecidableEq

namespace Daemon

variable {nt : ℕ}

def start (nt : ℕ) : Daemon nt := ⟨.starting (List.finRange nt), fun _ => .unborn⟩

def setPeer (t : Fin nt) (p : Peer) (s : Daemon nt) : Daemon nt :=
  { s with peers := Function.update s.peers t p }

/-- The loop has ended, or the tasks could not be started: `tasks_destroy` is next. -/
def stopAll (nt : ℕ) : CoordinatorAt nt := .stopping (List.finRange nt)

/-- `zsock_wait` on the pipe of a task, and what comes of the signal. -/
def wait (t : Fin nt) (next : ℕ → CoordinatorAt nt) (s : Daemon nt) : Option (Daemon nt) :=
  ((s.peers t).up.recv PipeMsg.status).map fun (sig, up) =>
    { s.setPeer t { s.peers t with up := up } with place := next sig }

/-- Something is sent to a task, unless its thread has destroyed its end of the pipe. -/
def tell (t : Fin nt) (msg : PipeMsg) (s : Daemon nt) : Daemon nt :=
  if (s.peers t).place = .exited then s
  else s.setPeer t { s.peers t with down := (s.peers t).down.send msg }

/-- The coordinator's end of the pipe is destroyed. -/
def drop (t : Fin nt) (s : Daemon nt) : Daemon nt := s.setPeer t { s.peers t with shim := false }

/-- A step of the coordinator. -/
def coordinate (a : DaemonStep nt) (s : Daemon nt) : Option (Daemon nt) :=
  match a, s.place with
  | .zactorNew, .starting (t :: ts) =>
    some { s.setPeer t { s.peers t with place := .born, shim := true } with place := .created t ts }
  -- zactor_new does not look at the signal
  | .handshake, .created t ts => s.wait t fun _ => .started t ts
  | .taskStart, .started t ts =>
    s.wait t fun sig =>
      if sig = SIG_DIED then stopAll nt
      else if sig = SIG_INIT then .starting ts
      else .aborted
  | .register ok, .starting [] => some { s with place := if ok then .polling else stopAll nt }
  | .newPkts, .polling => some { s with place := .waking (List.finRange nt) }
  | .look, .waking [] => some { s with place := .polling }
  | .look, .waking (t :: ts) =>
    some { s with
      place := if (s.peers t).active && !(s.peers t).busy then .sending t ts else .waking ts }
  -- there is no time limit: the call blocks while no thread is at the other end
  | .send, .sending t ts =>
    if (s.peers t).place = .exited then none
    else some { s.tell t .wakeup with place := .waking ts }
  | .die t, .polling => s.wait t fun sig => if sig = SIG_DIED then stopAll nt else .aborted
  | .interrupt, .polling => some { s with place := stopAll nt }
  | .interrupt, .sending t _ =>
    if (s.peers t).place = .exited then some { s with place := stopAll nt } else none
  | .interrupt, .created t ts =>
    if (s.peers t).up.queue = [] then some { s with place := .started t ts } else none
  | .interrupt, .started t _ =>
    if (s.peers t).up.queue = [] then some { s with place := .aborted } else none
  | .interrupt, .joining t ts =>
    if (s.peers t).up.queue = [] then some { s.drop t with place := .stopping ts } else none
  | .stop, .stopping [] => some { s with place := .returned }
  | .stop, .stopping (t :: ts) =>
    if (s.peers t).shim = false then some { s with place := .stopping ts }
    else some { s.tell t .stop with place := .stopped t ts }
  -- if "$TERM" cannot be sent, zactor_destroy does not wait
  | .term, .stopped t ts =>
    if (s.peers t).place = .exited then some { s.drop t with place := .stopping ts }
    else some { s.tell t .term with place := .joining t ts }
  | .join, .joining t ts => (s.wait t fun _ => .stopping ts).map (drop t)
  | _, _ => none

/-- One step, if it can be taken.  A failed assertion ends the process. -/
def step (autoactivate : Fin nt → Bool) (a : DaemonStep nt) (s : Daemon nt) : Option (Daemon nt) :=
  if s.place = .aborted then none
  else
    match a with
    | .thread t a => ((s.peers t).step (autoactivate t) a).map fun p => s.setPeer t p
    | a => s.coordinate a

/-- The coordinator is interrupted at most in its loop, or while it is blocked in `tasks_wakeup`. -/
def Calm (a : DaemonStep nt) (s : Daemon nt) : Prop :=
  match a, s.place with
  | .interrupt, .polling => True
  | .interrupt, .sending _ _ => True
  | .interrupt, _ => False
  | _, _ => True

theorem calm_interrupt {s : Daemon nt} :
    Calm .interrupt s ↔ s.place = .polling ∨ ∃ t ts, s.place = .sending t ts := by
  unfold Calm
  cases s.place <;> simp

theorem calm_of_ne {a : DaemonStep nt} (ha : a ≠ .interrupt) (s : Daemon nt) : Calm a s := by
  unfold Calm
  split <;> trivial

section Set

variable (s : Daemon nt) {t u : Fin nt} (p : Peer)

@[simp] theorem setPeer_place : (s.setPeer t p).place = s.place := rfl

@[simp] theorem setPeer_self : (s.setPeer t p).peers t = p := Function.update_self _ _ _

theorem setPeer_of_ne (h : u ≠ t) : (s.setPeer t p).peers u = s.peers u :=
  Function.update_of_ne h _ _

theorem setPeer_setPeer (p' : Peer) : (s.setPeer t p).setPeer t p' = s.setPeer t p' := by
  unfold setPeer
  dsimp only
  rw [Function.update_idem]

theorem setPeer_peers : (s.setPeer t p).peers u = if u = t then p else s.peers u := by
  by_cases h : u = t
  · rw [if_pos h, h, setPeer_self]
  · rw [if_neg h, setPeer_of_ne s p h]

end Set

end Daemon

/-! ## The wakeup handler -/

namespace Peer

variable {nr : ℕ} {δ : Type}

/-- The flags of a task are those that the coordinator sees. -/
structure Shows (p : Peer) (task : Task nr δ) : Prop where
  active : p.active = task.active
  busy : p.busy = task.busy
  error : p.error = task.error

/-- The signals that `s_sig_hn` knows. -/
def ofSignal : Signal → ℕ
  | .wakeup => SIG_WAKEUP
  | .stop => SIG_STOP

/-- What the loop of `s_sig_hn` does to the flags, when the packet handler has returned `rc` last. -/
theorem process_flags (hooks : Hooks nr δ) {rings : Fin nr → Ring} (readersOk : Bool) {fuel : ℕ}
    (task : Task nr δ) (ok : ∀ r, (rings r).Ok) (onRings : task.OnRings rings)
    (enough : ∀ r, (rings r).numSlots ≤ fuel) (hfuel : nr < fuel) :
    ∃ (rc : TaskRc) (task' : Task nr δ) (calls : List Call),
      task.process hooks rings readersOk fuel fuel = some (task', calls) ∧
        task'.active = (task.active && !(rc == .sleep && readersOk)) ∧
        task'.error = (task.error || rc == .error) := by
  have hcard : (task.unrecorded.behind rings).card < fuel :=
    Nat.lt_of_le_of_lt (Finset.card_le_univ _) (by rwa [Fintype.card_fin])
  obtain ⟨rc, task₁, calls, hp, hrec⟩ :=
    Task.process_recording hooks readersOk task.unrecorded ok onRings enough hcard
  have hforget : task.unrecorded.forget.process hooks rings readersOk fuel fuel = _ :=
    Task.process_forget task.unrecorded
  rw [hp] at hforget
  obtain ⟨herror, hactive⟩ := Task.conclude_spec readersOk rc task₁
  exact ⟨rc, (task₁.conclude readersOk rc).forget, calls, hforget,
    hactive.trans (by rw [hrec.active]; rfl), herror.trans (by rw [hrec.error]; rfl)⟩

/-- The two steps of a thread around its packets are a call of `s_sig_hn`: from a task in its loop,
they lead to the flags that the call leaves, and out of the loop just if it returns `-1`. -/
theorem sigHn_refines (hooks : Hooks nr δ) {rings : Fin nr → Ring} (readersOk autoactivate : Bool)
    {fuel : ℕ} (sig : Signal) {p : Peer} {down : Pipe PipeMsg} {task : Task nr δ}
    (ok : ∀ r, (rings r).Ok) (onRings : task.OnRings rings)
    (enough : ∀ r, (rings r).numSlots ≤ fuel) (hfuel : nr < fuel) (shows : p.Shows task)
    (at_ : p.place = .polling) (clean : p.error = false) (idle : p.busy = false)
    (recv : p.down.recv PipeMsg.status = some (ofSignal sig, down)) :
    ∃ ret task' calls bs p', task.sigHn hooks rings readersOk fuel sig = some (ret, task', calls) ∧
      run (step autoactivate) (.signal :: bs) p = some p' ∧ (∀ b ∈ bs, ∃ rc, b = .handled rc readersOk) ∧
      p'.Shows task' ∧ p'.down = down ∧ p'.up = p.up ∧
      (ret = -1 ∧ p'.place = .cleanup ∨ ret = 0 ∧ p'.place = .polling) := by
  have hsignal : step autoactivate .signal p = some
      (if ofSignal sig = SIG_STOP then { p with down := down, busy := true, place := .cleanup }
        else if p.active = false then { p with down := down }
        else { p with down := down, busy := true, place := .handling }) := by
    rw [step, if_neg (not_not.2 at_), recv]
    rfl
  unfold Task.sigHn
  dsimp only
  cases sig with
  | stop =>
    refine ⟨-1, _, _, [], _, if_pos rfl, by rw [run, hsignal]; rfl, by simp, ?_⟩
    exact ⟨⟨shows.active, rfl, shows.error⟩, rfl, rfl, .inl ⟨rfl, rfl⟩⟩
  | wakeup =>
    rw [if_neg (by decide)] at hsignal
    rw [if_neg (by decide)]
    by_cases hidle : task.active = false
    · rw [if_pos (shows.active.trans hidle)] at hsignal
      rw [if_pos hidle]
      refine ⟨0, _, [], [], _, rfl, by rw [run, hsignal]; rfl, by simp, ?_⟩
      exact ⟨⟨shows.active, idle, shows.error⟩, rfl, rfl, .inr ⟨rfl, at_⟩⟩
    · rw [if_neg (by rw [shows.active]; exact hidle)] at hsignal
      rw [if_neg hidle]
      obtain ⟨rc, task', calls, hp, hactive, herror⟩ := process_flags hooks readersOk
        { task with busy := true } ok onRings enough hfuel
      rw [hp]
      dsimp only at hactive herror
      rw [← shows.active] at hactive
      rw [← shows.error, clean, Bool.false_or] at herror
      refine ⟨_, _, calls, [.handled rc readersOk], _, rfl, by rw [run, hsignal]; rfl, by simp, ?_⟩
      refine ⟨⟨hactive.symm, rfl, ?_⟩, rfl, rfl, ?_⟩
      · simp [conclude, clean, herror]
      · simp only [conclude, clean, Bool.false_or, herror]
        cases rc <;> simp

theorem sigHn_refines_tick : ∃ ret task' calls bs p',
    Task.taskAt0.sigHn (Task.always .error) (Task.ringsWith [(0, Task.tickAt 1)]) true 16 .wakeup =
      some (ret, task', calls) ∧
    run (step true) (.signal :: bs)
      { unborn with place := .polling, active := true, down := ⟨[], [.wakeup]⟩ } = some p' ∧
    (∀ b ∈ bs, ∃ rc, b = .handled rc true) ∧ p'.Shows task' ∧ p'.down = ⟨[.wakeup], []⟩ ∧
    p'.up = .empty ∧ (ret = -1 ∧ p'.place = .cleanup ∨ ret = 0 ∧ p'.place = .polling) := by
  apply sigHn_refines
  · exact fun r => ⟨by decide +revert, by decide +revert⟩
  · exact fun _ => (by decide : 0 < 8)
  · exact fun _ => (by decide : 8 ≤ 16)
  · decide
  · exact ⟨rfl, rfl, rfl⟩
  all_goals rfl

end Peer

end Tesd
