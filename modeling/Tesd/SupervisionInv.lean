import Tesd.Supervision

/-!
# What the coordinator knows of the threads

At every point of a run, what a thread has signalled is determined by where it is, and where the
coordinator is determines how much of it has been read.
-/

namespace Tesd

open Runs

namespace Peer

/-! ## What a thread signals -/

/-- What a thread that has left its loop has signalled. -/
def Farewell (error : Bool) (l : List PipeMsg) : Prop :=
  (error = true ∧ (l = [.hello, .died] ∨ l = [.hello, .init, .died])) ∨
    (error = false ∧ l = [.hello, .init])

/-- What the thread has signalled until now. -/
def Said (p : Peer) : Prop :=
  match p.place with
  | .unborn | .born => p.up.sent = [] ∧ p.error = false
  | .opening => p.up.sent = [.hello] ∧ p.error = false
  | .activating | .polling | .handling => p.up.sent = [.hello, .init] ∧ p.error = false
  | .cleanup => (p.up.sent = [.hello] ∧ p.error = true) ∨ p.up.sent = [.hello, .init]
  | .finishing | .returned => Farewell p.error p.up.sent
  | .exited => ∃ l, Farewell p.error l ∧ p.up.sent = l ++ [.bye]

/-- The coordinator has sent `SIG_WAKEUP` any number of times, and then these messages. -/
def Told (tail : List PipeMsg) (p : Peer) : Prop :=
  ∃ k, p.down.sent = List.replicate k .wakeup ++ tail

/-- What the coordinator may have sent at the end. -/
def Tail (tail : List PipeMsg) : Prop := tail = [] ∨ tail = [.stop] ∨ tail = [.stop, .term]

/-- What the thread has been sent, what it has read of it, and its flag `busy`. -/
structure Hears (p : Peer) : Prop where
  told : ∃ tail, Tail tail ∧ Told tail p
  taken : ¬ p.place.Left → ∃ k, p.down.taken = List.replicate k .wakeup
  idle : p.place = .polling → p.busy = false
  fresh : p.place = .unborn ∨ p.place = .born ∨ p.place = .opening ∨ p.place = .activating →
    p.busy = false

/-- What a step of a thread leaves as the coordinator knows it. -/
structure Steps (p p' : Peer) : Prop where
  taken : p'.up.taken = p.up.taken
  shim : p'.shim = p.shim
  told : p'.down.sent = p.down.sent
  born : p.place ≠ .unborn
  born' : p'.place ≠ .unborn
  past : p.place.Past → p'.place.Past ∧ p'.error = p.error
  exited : p.place ≠ .exited

variable {autoactivate : Bool} {a : ThreadStepOf} {p p' : Peer}

/-- What a step of a thread can do. -/
inductive Move (autoactivate : Bool) (p : Peer) : ThreadStepOf → Peer → Prop
  | hello (at_ : p.place = .born) :
    Move autoactivate p .hello { p with place := .opening, up := p.up.send .hello }
  | activates (at_ : p.place = .opening) (auto : autoactivate = true) :
    Move autoactivate p (.setUp true) { p with place := .activating, up := p.up.send .init }
  | polls (at_ : p.place = .opening) (auto : autoactivate = false) :
    Move autoactivate p (.setUp true) { p with place := .polling, up := p.up.send .init }
  | setUpFails (at_ : p.place = .opening) :
    Move autoactivate p (.setUp false) { p with place := .cleanup, error := true }
  | activated (at_ : p.place = .activating) :
    Move autoactivate p (.activate true) { p with place := .polling, active := true }
  | activateFails (at_ : p.place = .activating) :
    Move autoactivate p (.activate false) { p with place := .cleanup, error := true }
  | request (at_ : p.place = .polling) (active : Bool) :
    Move autoactivate p (.request active false) { p with active := active, place := .polling }
  | ends (at_ : p.place = .polling) (active : Bool) :
    Move autoactivate p (.request active true) { p with active := active, place := .cleanup }
  | stop (at_ : p.place = .polling) (down : Pipe PipeMsg)
      (recv : p.down.recv PipeMsg.status = some (SIG_STOP, down)) :
    Move autoactivate p .signal { p with down := down, busy := true, place := .cleanup }
  | inactive (at_ : p.place = .polling) (sig : ℕ) (down : Pipe PipeMsg)
      (recv : p.down.recv PipeMsg.status = some (sig, down)) (ne : sig ≠ SIG_STOP)
      (idle : p.active = false) :
    Move autoactivate p .signal { p with down := down }
  | wakeup (at_ : p.place = .polling) (sig : ℕ) (down : Pipe PipeMsg)
      (recv : p.down.recv PipeMsg.status = some (sig, down)) (ne : sig ≠ SIG_STOP)
      (act : p.active = true) :
    Move autoactivate p .signal { p with down := down, busy := true, place := .handling }
  | handled (at_ : p.place = .handling) (rc : TaskRc) (readersOk : Bool)
      (ok : (p.conclude rc readersOk).error = false) :
    Move autoactivate p (.handled rc readersOk) { p.conclude rc readersOk with place := .polling }
  | fails (at_ : p.place = .handling) (rc : TaskRc) (readersOk : Bool)
      (err : (p.conclude rc readersOk).error = true) :
    Move autoactivate p (.handled rc readersOk) { p.conclude rc readersOk with place := .cleanup }
  | dies (at_ : p.place = .cleanup) (err : p.error = true) :
    Move autoactivate p .cleanup { p with place := .finishing, up := p.up.send .died }
  | leaves (at_ : p.place = .cleanup) (err : p.error = false) :
    Move autoactivate p .cleanup { p with place := .finishing }
  | fin (at_ : p.place = .finishing) : Move autoactivate p .fin { p with place := .returned }
  | exit (at_ : p.place = .returned) :
    Move autoactivate p .exit { p with place := .exited, up := p.up.send .bye }

theorem move_signal (h : step autoactivate .signal p = some p') :
    Move autoactivate p .signal p' := by
  rw [step] at h
  split_ifs at h with hplace
  rw [not_not] at hplace
  obtain ⟨⟨sig, down⟩, hrecv, rfl⟩ := Option.map_eq_some_iff.1 h
  dsimp only
  by_cases hstop : sig = SIG_STOP
  · subst hstop
    rw [if_pos rfl]
    exact .stop hplace down hrecv
  · rw [if_neg hstop]
    by_cases hidle : p.active = false
    · rw [if_pos hidle]
      exact .inactive hplace sig down hrecv hstop hidle
    · rw [if_neg hidle]
      exact .wakeup hplace sig down hrecv hstop (by simpa using hidle)

theorem move_of_step (h : step autoactivate a p = some p') : Move autoactivate p a p' := by
  cases a with
  | signal => exact move_signal h
  | hello =>
    obtain ⟨hplace, h⟩ := Option.ite_none_right_eq_some.1 h
    obtain rfl := Option.some.inj h
    exact .hello hplace
  | setUp ok =>
    obtain ⟨hplace, h⟩ := Option.ite_none_left_eq_some.1 h
    rw [not_not] at hplace
    cases ok <;> cases autoactivate <;> obtain rfl := Option.some.inj h
    · exact .setUpFails hplace
    · exact .setUpFails hplace
    · exact .polls hplace rfl
    · exact .activates hplace rfl
  | activate ok =>
    obtain ⟨hplace, h⟩ := Option.ite_none_left_eq_some.1 h
    rw [not_not] at hplace
    cases ok <;> obtain rfl := Option.some.inj h
    · exact .activateFails hplace
    · exact .activated hplace
  | request active ends =>
    obtain ⟨hplace, h⟩ := Option.ite_none_right_eq_some.1 h
    cases ends <;> obtain rfl := Option.some.inj h
    · exact .request hplace active
    · exact .ends hplace active
  | handled rc readersOk =>
    obtain ⟨hplace, h⟩ := Option.ite_none_left_eq_some.1 h
    rw [not_not] at hplace
    obtain rfl := Option.some.inj h
    split_ifs with herr
    · exact .fails hplace rc readersOk herr
    · exact .handled hplace rc readersOk (Bool.eq_false_iff.2 herr)
  | cleanup =>
    obtain ⟨hplace, h⟩ := Option.ite_none_right_eq_some.1 h
    split_ifs at h with herr <;> obtain rfl := Option.some.inj h
    · exact .dies hplace herr
    · exact .leaves hplace (Bool.eq_false_iff.2 herr)
  | fin =>
    obtain ⟨hplace, h⟩ := Option.ite_none_right_eq_some.1 h
    obtain rfl := Option.some.inj h
    exact .fin hplace
  | exit =>
    obtain ⟨hplace, h⟩ := Option.ite_none_right_eq_some.1 h
    obtain rfl := Option.some.inj h
    exact .exit hplace

/-- Where the thread goes. -/
theorem steps_of_move (h : Move autoactivate p a p') : Steps p p' := by
  cases h with
  | stop at_ down recv | inactive at_ sig down recv _ _ | wakeup at_ sig down recv _ _ =>
    have hsent := Pipe.sent_of_recv recv
    constructor <;> simp [at_, hsent, ThreadAt.Past]
  | _ at_ => constructor <;> simp [at_, conclude, ThreadAt.Past]

theorem said_of_move (said : Said p) (h : Move autoactivate p a p') : Said p' := by
  cases h with
  | dies at_ err =>
    simp only [Said, at_] at said
    rcases said with ⟨hsent, -⟩ | hsent <;> simp [Said, Farewell, hsent, err]
  | _ => simp_all [Said, conclude, Farewell]

theorem recv_signal {pipe : Pipe PipeMsg} {n : ℕ} {rest : List PipeMsg}
    (h : pipe.queue = .signal n :: rest) :
    pipe.recv PipeMsg.status = some (n, ⟨pipe.taken ++ [.signal n], rest⟩) :=
  Pipe.recv_of_queue h rfl

theorem replicate_concat (k : ℕ) :
    List.replicate k PipeMsg.wakeup ++ [.wakeup] = List.replicate (k + 1) .wakeup :=
  List.replicate_succ'.symm

theorem wakeup_notMem {tail : List PipeMsg} (h : Tail tail) : .wakeup ∉ tail := by
  rcases h with rfl | rfl | rfl <;> decide

/-- What is left of the wakeups and of what follows them once some wakeups were read. -/
theorem rest_of_replicate {j k : ℕ} {rest tail : List PipeMsg} (hnot : .wakeup ∉ tail)
    (h : List.replicate j .wakeup ++ rest = List.replicate k .wakeup ++ tail) :
    ∃ d, k = j + d ∧ rest = List.replicate d .wakeup ++ tail := by
  induction j generalizing k with
  | zero => exact ⟨k, (Nat.zero_add k).symm, h⟩
  | succ j ih =>
    cases k with
    | zero =>
      rw [List.replicate_succ, List.replicate_zero, List.nil_append] at h
      exact absurd (h ▸ List.mem_cons_self) hnot
    | succ k =>
      rw [List.replicate_succ, List.replicate_succ, List.cons_append, List.cons_append] at h
      obtain ⟨d, rfl, hrest⟩ := ih (List.cons.inj h).2
      exact ⟨d, by omega, hrest⟩

/-- The next signal for a thread that has read wakeups until now is `SIG_WAKEUP` or `SIG_STOP`. -/
theorem recv_of_told {tail : List PipeMsg} {j sig : ℕ} {down : Pipe PipeMsg} (htail : Tail tail)
    (told : Told tail p) (taken : p.down.taken = List.replicate j .wakeup)
    (h : p.down.recv PipeMsg.status = some (sig, down)) :
    (sig = SIG_WAKEUP ∧ down.taken = List.replicate (j + 1) .wakeup) ∨
      (sig = SIG_STOP ∧ tail ≠ [] ∧ down.taken = List.replicate j .wakeup ++ [.stop]) := by
  obtain ⟨k, hk⟩ := told
  rw [Pipe.sent, taken] at hk
  obtain ⟨d, rfl, hqueue⟩ := rest_of_replicate (wakeup_notMem htail) hk
  cases d with
  | zero =>
    right
    rcases htail with rfl | rfl | rfl
    · rw [Pipe.recv_of_queue_nil hqueue] at h
      cases h
    all_goals
      rw [recv_signal hqueue] at h
      obtain ⟨rfl, rfl⟩ := Prod.mk.inj (Option.some.inj h)
      exact ⟨rfl, (fun h => by cases h), by rw [taken]⟩
  | succ d =>
    rw [recv_signal hqueue] at h
    obtain ⟨rfl, rfl⟩ := Prod.mk.inj (Option.some.inj h)
    exact .inl ⟨rfl, by rw [taken]; exact replicate_concat j⟩

theorem Hears.recv (hears : Hears p) (in_ : ¬ p.place.Left) {sig : ℕ} {down : Pipe PipeMsg}
    (h : p.down.recv PipeMsg.status = some (sig, down)) :
    (sig = SIG_WAKEUP ∧ ∃ k, down.taken = List.replicate k .wakeup) ∨ sig = SIG_STOP := by
  obtain ⟨tail, htail, told⟩ := hears.told
  obtain ⟨j, hj⟩ := hears.taken in_
  rcases recv_of_told htail told hj h with ⟨hsig, htaken⟩ | ⟨hsig, -⟩
  · exact .inl ⟨hsig, _, htaken⟩
  · exact .inr hsig

theorem hears_of_move (hears : Hears p) (h : Move autoactivate p a p') : Hears p' := by
  have hsteps := steps_of_move h
  have told : ∃ tail, Tail tail ∧ Told tail p' := by
    obtain ⟨tail, htail, k, hk⟩ := hears.told
    exact ⟨tail, htail, k, hsteps.told.trans hk⟩
  cases h with
  | stop at_ down recv => exact ⟨told, by simp [ThreadAt.Left], nofun, by simp⟩
  | inactive at_ sig down recv ne idle =>
    have hnext := hears.recv (by simp [at_, ThreadAt.Left]) recv
    exact ⟨told, fun _ => (hnext.resolve_right ne).2, fun _ => hears.idle at_, hears.fresh⟩
  | wakeup at_ sig down recv ne act =>
    have hnext := hears.recv (by simp [at_, ThreadAt.Left]) recv
    exact ⟨told, fun _ => (hnext.resolve_right ne).2, nofun, by simp⟩
  | hello at_ | activates at_ | polls at_ | activated at_ =>
    have htaken := hears.taken (by simp [at_, ThreadAt.Left])
    have hbusy := hears.fresh (by simp [at_])
    exact ⟨told, fun _ => htaken, fun _ => hbusy, fun _ => hbusy⟩
  | request at_ active =>
    exact ⟨told, fun _ => hears.taken (by simp [at_, ThreadAt.Left]), fun _ => hears.idle at_,
      by simp⟩
  | handled at_ rc readersOk ok =>
    exact ⟨told, fun _ => hears.taken (by simp [at_, ThreadAt.Left]), fun _ => rfl, by simp⟩
  | _ => exact ⟨told, by simp [ThreadAt.Left], nofun, by simp⟩

/-! ## What the coordinator reads of it -/

/-- What has been signalled, for a thread of which this was read. -/
theorem Said.cases (said : Said p) :
    p.up.sent = [] ∨ p.up.sent = [.hello] ∨ p.up.sent = [.hello, .init] ∨
      (p.up.sent = [.hello, .died] ∧ p.place.Past ∧ p.error = true) ∨
      (p.up.sent = [.hello, .init, .died] ∧ p.place.Past ∧ p.error = true) ∨
      (p.up.sent = [.hello, .died, .bye] ∧ p.place = .exited ∧ p.error = true) ∨
      (p.up.sent = [.hello, .init, .died, .bye] ∧ p.place = .exited ∧ p.error = true) ∨
      (p.up.sent = [.hello, .init, .bye] ∧ p.place = .exited ∧ p.error = false) := by
  unfold Said at said
  cases hplace : p.place <;> simp only [hplace, Farewell, ThreadAt.Past] at said ⊢
  case exited =>
    obtain ⟨l, hl | hl, hsent⟩ := said
    · obtain ⟨herr, rfl | rfl⟩ := hl <;> simp [hsent, herr]
    · obtain ⟨herr, rfl⟩ := hl
      simp [hsent, herr]
  all_goals tauto

/-- A thread sends nothing but signals. -/
theorem Said.signal (said : Said p) {m : PipeMsg} (h : m ∈ p.up.sent) : ∃ n, m = .signal n := by
  cases m with
  | signal n => exact ⟨n, rfl⟩
  | term =>
    rcases said.cases with hs | hs | hs | ⟨hs, -⟩ | ⟨hs, -⟩ | ⟨hs, -⟩ | ⟨hs, -⟩ | ⟨hs, -⟩ <;>
      simp [hs] at h

/-- The next signal that the coordinator can read. -/
theorem recv_of_said (said : Said p) {sig : ℕ} {up : Pipe PipeMsg}
    (h : p.up.recv PipeMsg.status = some (sig, up)) :
    up.taken = p.up.taken ++ [.signal sig] ∧ ∃ rest, p.up.sent = p.up.taken ++ .signal sig :: rest := by
  cases hqueue : p.up.queue with
  | nil =>
    rw [Pipe.recv_of_queue_nil hqueue] at h
    cases h
  | cons m rest =>
    have hsent : p.up.sent = p.up.taken ++ m :: rest := by rw [Pipe.sent, hqueue]
    obtain ⟨n, rfl⟩ := said.signal (m := m) (by simp [hsent])
    rw [recv_signal hqueue] at h
    obtain ⟨rfl, rfl⟩ := Prod.mk.inj (Option.some.inj h)
    exact ⟨rfl, rest, hsent⟩

theorem first_of_said (said : Said p) (htaken : p.up.taken = []) {sig : ℕ} {up : Pipe PipeMsg}
    (h : p.up.recv PipeMsg.status = some (sig, up)) : up.taken = [.hello] := by
  obtain ⟨htaken', rest, hsent⟩ := recv_of_said said h
  rw [htaken, List.nil_append] at htaken' hsent
  rcases said.cases with h | h | h | ⟨h, -⟩ | ⟨h, -⟩ | ⟨h, -⟩ | ⟨h, -⟩ | ⟨h, -⟩ <;>
    rw [h] at hsent <;> simp at hsent <;> rw [htaken', ← hsent.1]

/-- After its greeting, a thread signals that it is ready or that it has died. -/
theorem second_of_said (said : Said p) (htaken : p.up.taken = [.hello]) {sig : ℕ}
    {up : Pipe PipeMsg} (h : p.up.recv PipeMsg.status = some (sig, up)) :
    (sig = SIG_INIT ∧ up.taken = [.hello, .init]) ∨ (sig = SIG_DIED ∧ up.taken = [.hello, .died]) := by
  obtain ⟨htaken', rest, hsent⟩ := recv_of_said said h
  rw [htaken] at htaken' hsent
  rcases said.cases with h | h | h | ⟨h, -⟩ | ⟨h, -⟩ | ⟨h, -⟩ | ⟨h, -⟩ | ⟨h, -⟩ <;>
    rw [h] at hsent <;> simp at hsent <;> simp [htaken', ← hsent.1]

/-- A thread that was ready signals only once its loop has ended. -/
theorem third_of_said (said : Said p) (htaken : p.up.taken = [.hello, .init]) {sig : ℕ}
    {up : Pipe PipeMsg} (h : p.up.recv PipeMsg.status = some (sig, up)) :
    (sig = SIG_DIED ∧ up.taken = [.hello, .init, .died] ∧ p.place.Past ∧ p.error = true) ∨
      (sig = 0 ∧ p.place = .exited ∧ p.error = false) := by
  obtain ⟨htaken', rest, hsent⟩ := recv_of_said said h
  rw [htaken] at htaken' hsent
  rcases said.cases with h | h | h | ⟨h, -⟩ | ⟨h, hpast⟩ | ⟨h, -⟩ | ⟨h, hplace, herr⟩ | ⟨h, hexit⟩ <;>
    rw [h] at hsent <;> simp [SIG_INIT, SIG_DIED] at hsent
  · obtain ⟨rfl, -⟩ := hsent
    exact .inl ⟨rfl, htaken', hpast⟩
  · obtain ⟨rfl, -⟩ := hsent
    exact .inl ⟨rfl, htaken', by simp [hplace, ThreadAt.Past], herr⟩
  · obtain ⟨rfl, -⟩ := hsent
    exact .inr ⟨rfl, hexit⟩

/-- A thread that has died signals once more, when it has exited. -/
theorem last_of_said (said : Said p)
    (htaken : p.up.taken = [.hello, .died] ∨ p.up.taken = [.hello, .init, .died]) {sig : ℕ}
    {up : Pipe PipeMsg} (h : p.up.recv PipeMsg.status = some (sig, up)) : p.place = .exited := by
  obtain ⟨-, rest, hsent⟩ := recv_of_said said h
  rcases said.cases with h | h | h | ⟨h, -⟩ | ⟨h, -⟩ | ⟨h, hexit, -⟩ | ⟨h, hexit, -⟩ | ⟨h, hexit, -⟩ <;>
    rcases htaken with htaken | htaken <;> rw [h, htaken] at hsent <;>
      simp [SIG_INIT, SIG_DIED] at hsent <;> exact hexit

/-! ## The task as the coordinator knows it -/

/-- The task has not been started. -/
structure Fresh (p : Peer) : Prop where
  place : p.place = .unborn
  shim : p.shim = false
  told : Told [] p
  taken : p.up.taken = []

/-- The coordinator has its end of the pipe of a thread.  This was read of it, and this sent into it
after the wakeups. -/
structure Awaits (heard tail : List PipeMsg) (p : Peer) : Prop where
  shim : p.shim = true
  born : p.place ≠ .unborn
  taken : p.up.taken = heard
  told : Told tail p

/-- What has been read of a task that is to be stopped. -/
def Heard (heard : List PipeMsg) : Prop :=
  heard = [.hello, .init] ∨ heard = [.hello, .died] ∨ heard = [.hello, .init, .died]

/-- The task is still to be stopped. -/
def Pending (p : Peer) : Prop := Fresh p ∨ ∃ heard, Heard heard ∧ Awaits heard [] p

/-- `SIG_STOP` was sent to the task, unless its thread was not there any more. -/
def Stopping (p : Peer) : Prop :=
  ∃ heard, Heard heard ∧ (Awaits heard [.stop] p ∨ (p.place = .exited ∧ Awaits heard [] p))

/-- The coordinator waits for the thread. -/
def Joining (p : Peer) : Prop := ∃ heard, Heard heard ∧ Awaits heard [.stop, .term] p

/-- The thread has died, and the coordinator has not read more of it than this. -/
def DiedUnread (p : Peer) : Prop :=
  p.place.Past ∧ p.error = true ∧ p.up.taken = [.hello, .init, .died]

/-- The task has been stopped. -/
structure Done (p : Peer) : Prop where
  shim : p.shim = false
  ended : p.place = .unborn ∨ p.place = .exited ∨ DiedUnread p

theorem Steps.awaits {heard tail : List PipeMsg} (steps : Steps p p') (h : Awaits heard tail p) :
    Awaits heard tail p' := by
  obtain ⟨k, hk⟩ := h.told
  exact ⟨steps.shim.trans h.shim, steps.born', steps.taken.trans h.taken, k, steps.told.trans hk⟩

theorem Steps.pending (steps : Steps p p') (h : Pending p) : Pending p' := by
  rcases h with h | ⟨heard, hheard, h⟩
  · exact absurd h.place steps.born
  · exact .inr ⟨heard, hheard, steps.awaits h⟩

theorem Steps.stopping (steps : Steps p p') (h : Stopping p) : Stopping p' := by
  obtain ⟨heard, hheard, h | ⟨hexited, -⟩⟩ := h
  · exact ⟨heard, hheard, .inl (steps.awaits h)⟩
  · exact absurd hexited steps.exited

theorem Steps.done (steps : Steps p p') (h : Done p) : Done p' := by
  refine ⟨steps.shim.trans h.shim, ?_⟩
  rcases h.ended with h | h | ⟨hpast, herr, htaken⟩
  · exact absurd h steps.born
  · exact absurd h steps.exited
  · obtain ⟨hpast', herr'⟩ := steps.past hpast
    exact .inr (.inr ⟨hpast', herr'.trans herr, steps.taken.trans htaken⟩)

theorem Told.send {tail : List PipeMsg} (h : Told tail p) (msg : PipeMsg) :
    Told (tail ++ [msg]) { p with down := p.down.send msg } := by
  obtain ⟨k, hk⟩ := h
  exact ⟨k, by simp [hk]⟩

theorem Told.wakeup (h : Told [] p) : Told [] { p with down := p.down.send .wakeup } := by
  obtain ⟨k, hk⟩ := h
  exact ⟨k + 1, by simp [hk, List.replicate_succ']⟩

theorem Awaits.send {heard tail : List PipeMsg} (h : Awaits heard tail p) (msg : PipeMsg) :
    Awaits heard (tail ++ [msg]) { p with down := p.down.send msg } :=
  ⟨h.shim, h.born, h.taken, h.told.send msg⟩

/-- A thread of which more was read. -/
theorem Awaits.read {heard heard' tail : List PipeMsg} {up : Pipe PipeMsg}
    (h : Awaits heard tail p) (htaken : up.taken = heard') :
    Awaits heard' tail { p with up := up } :=
  ⟨h.shim, h.born, htaken, h.told⟩

theorem Hears.reads (h : Hears p) (up : Pipe PipeMsg) (shim : Bool) :
    Hears { p with up := up, shim := shim } :=
  ⟨h.told, h.taken, h.idle, h.fresh⟩

theorem said_read {sig : ℕ} {up : Pipe PipeMsg} (said : Said p)
    (h : p.up.recv PipeMsg.status = some (sig, up)) : Said { p with up := up } := by
  have hsent := Pipe.sent_of_recv h
  unfold Said at said ⊢
  dsimp only
  rw [hsent]
  exact said

end Peer

namespace Daemon

open Peer

variable {nt : ℕ}

/-- What the coordinator knows of a task at each point. -/
def Expected : CoordinatorAt nt → Fin nt → Peer → Prop
  | .starting ts, u, p => if u ∈ ts then Fresh p else Awaits [.hello, .init] [] p
  | .created t ts, u, p =>
    if u = t then Awaits [] [] p else if u ∈ ts then Fresh p else Awaits [.hello, .init] [] p
  | .started t ts, u, p =>
    if u = t then Awaits [.hello] [] p else if u ∈ ts then Fresh p else Awaits [.hello, .init] [] p
  | .polling, _, p | .waking _, _, p | .sending _ _, _, p => Awaits [.hello, .init] [] p
  | .stopping ts, u, p => if u ∈ ts then Pending p else Done p
  | .stopped t ts, u, p => if u = t then Stopping p else if u ∈ ts then Pending p else Done p
  | .joining t ts, u, p => if u = t then Joining p else if u ∈ ts then Pending p else Done p
  | .returned, _, p => Done p
  | .aborted, _, _ => True

/-- The tasks that a loop over them has still to do, the current one included. -/
def todo : CoordinatorAt nt → List (Fin nt)
  | .starting ts | .stopping ts => ts
  | .created t ts | .started t ts | .stopped t ts | .joining t ts => t :: ts
  | _ => []

structure Inv (s : Daemon nt) : Prop where
  said : ∀ t, Said (s.peers t)
  hears : ∀ t, Hears (s.peers t)
  expected : ∀ t, Expected s.place t (s.peers t)
  nodup : (todo s.place).Nodup

theorem inv_start : Inv (start nt) where
  said _ := ⟨rfl, rfl⟩
  hears _ := ⟨⟨[], .inl rfl, 0, rfl⟩, fun _ => ⟨0, rfl⟩, nofun, fun _ => rfl⟩
  expected t := by
    simp only [start, Expected, List.mem_finRange, if_true]
    exact ⟨rfl, rfl, ⟨0, rfl⟩, rfl⟩
  nodup := List.nodup_finRange nt

variable {s s' : Daemon nt} {t : Fin nt} {p' : Peer}

/-- A step of a thread changes nothing that the coordinator knows. -/
theorem expected_of_steps {place : CoordinatorAt nt} {u : Fin nt} {p : Peer}
    (steps : Steps p p') (h : Expected place u p) : Expected place u p' := by
  have hfresh : Fresh p → Fresh p' := fun h => absurd h.place steps.born
  have hjoining : Joining p → Joining p' := fun ⟨heard, hheard, h⟩ => ⟨heard, hheard, steps.awaits h⟩
  cases place <;> simp only [Expected] at h ⊢
  case starting | created | started => split_ifs at h ⊢ <;> first | exact steps.awaits h | exact hfresh h
  case stopping | stopped | joining =>
    split_ifs at h ⊢ <;>
      first | exact steps.pending h | exact steps.done h | exact steps.stopping h | exact hjoining h
  case returned => exact steps.done h
  all_goals exact steps.awaits h

/-- What the coordinator can do in one step, if it is interrupted at most in its loop, or while it is
blocked in `tasks_wakeup`. -/
inductive Turn (s : Daemon nt) : DaemonStep nt → Daemon nt → Prop
  | zactorNew {t : Fin nt} {ts : List (Fin nt)} (at_ : s.place = .starting (t :: ts)) :
    Turn s .zactorNew { s.setPeer t { s.peers t with place := .born, shim := true } with
      place := .created t ts }
  | handshake {t : Fin nt} {ts : List (Fin nt)} {sig : ℕ} {up : Pipe PipeMsg}
      (at_ : s.place = .created t ts)
      (recv : (s.peers t).up.recv PipeMsg.status = some (sig, up)) :
    Turn s .handshake { s.setPeer t { s.peers t with up := up } with place := .started t ts }
  | taskStart {t : Fin nt} {ts : List (Fin nt)} {sig : ℕ} {up : Pipe PipeMsg}
      (at_ : s.place = .started t ts)
      (recv : (s.peers t).up.recv PipeMsg.status = some (sig, up)) :
    Turn s .taskStart { s.setPeer t { s.peers t with up := up } with
      place := if sig = SIG_DIED then stopAll nt else if sig = SIG_INIT then .starting ts
        else .aborted }
  | register (at_ : s.place = .starting []) (ok : Bool) :
    Turn s (.register ok) { s with place := if ok then .polling else stopAll nt }
  | newPkts (at_ : s.place = .polling) : Turn s .newPkts { s with place := .waking (List.finRange nt) }
  | lookDone (at_ : s.place = .waking []) : Turn s .look { s with place := .polling }
  | look {t : Fin nt} {ts : List (Fin nt)} (at_ : s.place = .waking (t :: ts)) :
    Turn s .look { s with
      place := if (s.peers t).active && !(s.peers t).busy then .sending t ts else .waking ts }
  | send {t : Fin nt} {ts : List (Fin nt)} (at_ : s.place = .sending t ts)
      (there : (s.peers t).place ≠ .exited) :
    Turn s .send { s.tell t .wakeup with place := .waking ts }
  | die {t : Fin nt} {sig : ℕ} {up : Pipe PipeMsg} (at_ : s.place = .polling)
      (recv : (s.peers t).up.recv PipeMsg.status = some (sig, up)) :
    Turn s (.die t) { s.setPeer t { s.peers t with up := up } with
      place := if sig = SIG_DIED then stopAll nt else .aborted }
  | interrupt (at_ : s.place = .polling) : Turn s .interrupt { s with place := stopAll nt }
  | unblock {t : Fin nt} {ts : List (Fin nt)} (at_ : s.place = .sending t ts)
      (gone : (s.peers t).place = .exited) : Turn s .interrupt { s with place := stopAll nt }
  | allStopped (at_ : s.place = .stopping []) : Turn s .stop { s with place := .returned }
  | skip {t : Fin nt} {ts : List (Fin nt)} (at_ : s.place = .stopping (t :: ts))
      (none_ : (s.peers t).shim = false) : Turn s .stop { s with place := .stopping ts }
  | stop {t : Fin nt} {ts : List (Fin nt)} (at_ : s.place = .stopping (t :: ts))
      (some_ : (s.peers t).shim = true) :
    Turn s .stop { s.tell t .stop with place := .stopped t ts }
  | gone {t : Fin nt} {ts : List (Fin nt)} (at_ : s.place = .stopped t ts)
      (exited : (s.peers t).place = .exited) : Turn s .term { s.drop t with place := .stopping ts }
  | term {t : Fin nt} {ts : List (Fin nt)} (at_ : s.place = .stopped t ts)
      (there : (s.peers t).place ≠ .exited) :
    Turn s .term { s.tell t .term with place := .joining t ts }
  | join {t : Fin nt} {ts : List (Fin nt)} {sig : ℕ} {up : Pipe PipeMsg}
      (at_ : s.place = .joining t ts)
      (recv : (s.peers t).up.recv PipeMsg.status = some (sig, up)) :
    Turn s .join { s.setPeer t { s.peers t with up := up, shim := false } with
      place := .stopping ts }

section Keep

variable {p : Peer} {place : CoordinatorAt nt}

theorem Inv.setPeer (inv : Inv s) (said : Said p) (hears : Hears p) (expected : Expected place t p)
    (others : ∀ u, u ≠ t → Expected s.place u (s.peers u) → Expected place u (s.peers u))
    (nodup : (todo place).Nodup) : Inv { s.setPeer t p with place := place } where
  said u := by
    by_cases hu : u = t
    · rw [hu]
      exact (setPeer_self s p).symm ▸ said
    · exact (setPeer_of_ne s p hu).symm ▸ inv.said u
  hears u := by
    by_cases hu : u = t
    · rw [hu]
      exact (setPeer_self s p).symm ▸ hears
    · exact (setPeer_of_ne s p hu).symm ▸ inv.hears u
  expected u := by
    by_cases hu : u = t
    · rw [hu]
      exact (setPeer_self s p).symm ▸ expected
    · exact (setPeer_of_ne s p hu).symm ▸ others u hu (inv.expected u)
  nodup := nodup

theorem Inv.goTo (inv : Inv s)
    (all : ∀ u, Expected s.place u (s.peers u) → Expected place u (s.peers u))
    (nodup : (todo place).Nodup) : Inv { s with place := place } :=
  ⟨inv.said, inv.hears, fun u => all u (inv.expected u), nodup⟩

theorem Inv.tell (inv : Inv s) {msg : PipeMsg}
    (hears : (s.peers t).place ≠ .exited →
      ∃ tail, Tail tail ∧ Told tail { s.peers t with down := (s.peers t).down.send msg })
    (expected : (s.peers t).place ≠ .exited →
      Expected place t { s.peers t with down := (s.peers t).down.send msg })
    (gone : (s.peers t).place = .exited → Expected place t (s.peers t))
    (others : ∀ u, u ≠ t → Expected s.place u (s.peers u) → Expected place u (s.peers u))
    (nodup : (todo place).Nodup) : Inv { s.tell t msg with place := place } := by
  unfold Daemon.tell
  split_ifs with hexited
  · refine inv.goTo (fun u hu => ?_) nodup
    by_cases hut : u = t
    · rw [hut]
      exact gone hexited
    · exact others u hut hu
  · have h := inv.hears t
    exact inv.setPeer (inv.said t) ⟨hears hexited, h.taken, h.idle, h.fresh⟩ (expected hexited)
      others nodup

end Keep

theorem wait_eq_some {next : ℕ → CoordinatorAt nt} (h : s.wait t next = some s') :
    ∃ sig up, (s.peers t).up.recv PipeMsg.status = some (sig, up) ∧
      s' = { s.setPeer t { s.peers t with up := up } with place := next sig } := by
  obtain ⟨⟨sig, up⟩, hrecv, rfl⟩ := Option.map_eq_some_iff.1 h
  exact ⟨sig, up, hrecv, rfl⟩

theorem drop_wait (t : Fin nt) (up : Pipe PipeMsg) (place : CoordinatorAt nt) :
    drop t { s.setPeer t { s.peers t with up := up } with place := place } =
      { s.setPeer t { s.peers t with up := up, shim := false } with place := place } := by
  simp [drop, setPeer]

/-- What the coordinator does is one of these. -/
theorem turn_of_coordinate {a : DaemonStep nt} (calm : Calm a s) (h : s.coordinate a = some s') :
    Turn s a s' := by
  unfold coordinate at h
  split at h
  next t ts at_ =>
    obtain rfl := Option.some.inj h
    exact .zactorNew at_
  next t ts at_ =>
    obtain ⟨sig, up, hrecv, rfl⟩ := wait_eq_some h
    exact .handshake at_ hrecv
  next t ts at_ =>
    obtain ⟨sig, up, hrecv, rfl⟩ := wait_eq_some h
    exact .taskStart at_ hrecv
  next ok at_ =>
    obtain rfl := Option.some.inj h
    exact .register at_ ok
  next at_ =>
    obtain rfl := Option.some.inj h
    exact .newPkts at_
  next at_ =>
    obtain rfl := Option.some.inj h
    exact .lookDone at_
  next t ts at_ =>
    obtain rfl := Option.some.inj h
    exact .look at_
  next t ts at_ =>
    obtain ⟨hthere, h⟩ := Option.ite_none_left_eq_some.1 h
    obtain rfl := Option.some.inj h
    exact .send at_ hthere
  next t at_ =>
    obtain ⟨sig, up, hrecv, rfl⟩ := wait_eq_some h
    exact .die at_ hrecv
  next at_ =>
    obtain rfl := Option.some.inj h
    exact .interrupt at_
  next t ts at_ =>
    obtain ⟨hgone, h⟩ := Option.ite_none_right_eq_some.1 h
    obtain rfl := Option.some.inj h
    exact .unblock at_ hgone
  next t ts at_ =>
    simp [calm_interrupt, at_] at calm
  next t ts at_ =>
    simp [calm_interrupt, at_] at calm
  next t ts at_ =>
    simp [calm_interrupt, at_] at calm
  next at_ =>
    obtain rfl := Option.some.inj h
    exact .allStopped at_
  next t ts at_ =>
    by_cases hshim : (s.peers t).shim = false
    · rw [if_pos hshim] at h
      obtain rfl := Option.some.inj h
      exact .skip at_ hshim
    · rw [if_neg hshim] at h
      obtain rfl := Option.some.inj h
      exact .stop at_ (by simpa using hshim)
  next t ts at_ =>
    by_cases hexited : (s.peers t).place = .exited
    · rw [if_pos hexited] at h
      obtain rfl := Option.some.inj h
      exact .gone at_ hexited
    · rw [if_neg hexited] at h
      obtain rfl := Option.some.inj h
      exact .term at_ hexited
  next t ts at_ =>
    obtain ⟨s₁, hwait, rfl⟩ := Option.map_eq_some_iff.1 h
    obtain ⟨sig, up, hrecv, rfl⟩ := wait_eq_some hwait
    rw [drop_wait]
    exact .join at_ hrecv
  next => cases h

theorem pending_of_ready {p : Peer} (h : Awaits [.hello, .init] [] p) : Pending p :=
  .inr ⟨_, .inl rfl, h⟩

/-- `tasks_destroy` finds every task as it should. -/
theorem pending_of_expected {u : Fin nt} {p : Peer} {place : CoordinatorAt nt}
    (hplace : place = .polling ∨ (∃ t ts, place = .sending t ts) ∨ place = .starting [])
    (h : Expected place u p) : Expected (stopAll nt) u p := by
  simp only [stopAll, Expected, List.mem_finRange, if_true]
  rcases hplace with rfl | ⟨t, ts, rfl⟩ | rfl
  · exact pending_of_ready h
  · exact pending_of_ready h
  · simp only [Expected, List.not_mem_nil, if_false] at h
    exact pending_of_ready h

theorem Inv.zactorNew {ts : List (Fin nt)} (inv : Inv s) (at_ : s.place = .starting (t :: ts)) :
    Inv { s.setPeer t { s.peers t with place := .born, shim := true } with place := .created t ts } := by
  have hnodup := inv.nodup
  have hexp := inv.expected
  rw [at_] at hnodup hexp
  have hfresh : Fresh (s.peers t) := by simpa [Expected] using hexp t
  have hsaid : Said { s.peers t with place := .born, shim := true } := by
    have := inv.said t
    simpa [Said, hfresh.place] using this
  have hhears := inv.hears t
  refine inv.setPeer hsaid ⟨hhears.told, fun _ => hhears.taken (by simp [hfresh.place, ThreadAt.Left]),
    nofun, fun _ => hhears.fresh (.inl hfresh.place)⟩ ?_ (fun u hu h => ?_) hnodup
  · simpa [Expected] using ⟨rfl, by simp, hfresh.taken, hfresh.told⟩
  · rw [at_] at h
    simpa [Expected, hu] using h

theorem Inv.handshake {ts : List (Fin nt)} {sig : ℕ} {up : Pipe PipeMsg} (inv : Inv s)
    (at_ : s.place = .created t ts) (recv : (s.peers t).up.recv PipeMsg.status = some (sig, up)) :
    Inv { s.setPeer t { s.peers t with up := up } with place := .started t ts } := by
  have hnodup := inv.nodup
  have hexp := inv.expected
  rw [at_] at hnodup hexp
  have haw : Awaits [] [] (s.peers t) := by simpa [Expected] using hexp t
  refine inv.setPeer (said_read (inv.said t) recv) ((inv.hears t).reads up _) ?_ (fun u hu h => ?_)
    hnodup
  · simpa [Expected] using haw.read (first_of_said (inv.said t) haw.taken recv)
  · rw [at_] at h
    simpa [Expected, hu] using h

theorem Inv.taskStart {ts : List (Fin nt)} {sig : ℕ} {up : Pipe PipeMsg} (inv : Inv s)
    (at_ : s.place = .started t ts) (recv : (s.peers t).up.recv PipeMsg.status = some (sig, up)) :
    Inv { s.setPeer t { s.peers t with up := up } with
      place := if sig = SIG_DIED then stopAll nt else if sig = SIG_INIT then .starting ts
        else .aborted } := by
  have hnodup := inv.nodup
  have hexp := inv.expected
  rw [at_] at hnodup hexp
  have haw : Awaits [.hello] [] (s.peers t) := by simpa [Expected] using hexp t
  have hhears : Hears { s.peers t with up := up } := (inv.hears t).reads up _
  rcases second_of_said (inv.said t) haw.taken recv with ⟨rfl, htaken⟩ | ⟨rfl, htaken⟩
  · rw [if_neg (by decide), if_pos rfl]
    refine inv.setPeer (said_read (inv.said t) recv) hhears ?_ (fun u hu h => ?_)
      (List.nodup_cons.1 hnodup).2
    · simpa [Expected, (List.nodup_cons.1 hnodup).1] using haw.read htaken
    · rw [at_] at h
      simpa [Expected, hu] using h
  · rw [if_pos rfl]
    refine inv.setPeer (said_read (inv.said t) recv) hhears ?_ (fun u hu h => ?_)
      (List.nodup_finRange nt)
    · simp only [stopAll, Expected, List.mem_finRange, if_true]
      exact .inr ⟨_, .inr (.inl rfl), haw.read htaken⟩
    · rw [at_] at h
      simp only [stopAll, Expected, List.mem_finRange, if_true, if_neg hu] at h ⊢
      split_ifs at h with hts
      · exact .inl h
      · exact pending_of_ready h

theorem Inv.send {ts : List (Fin nt)} (inv : Inv s) (at_ : s.place = .sending t ts)
    (there : (s.peers t).place ≠ .exited) :
    Inv { s.tell t .wakeup with place := .waking ts } := by
  have hexp := inv.expected
  rw [at_] at hexp
  have haw : Awaits [.hello, .init] [] (s.peers t) := hexp t
  refine inv.tell (fun _ => ⟨[], .inl rfl, haw.told.wakeup⟩)
    (fun _ => ⟨haw.shim, haw.born, haw.taken, haw.told.wakeup⟩) (fun h => absurd h there)
    (fun u _ h => ?_) List.nodup_nil
  rw [at_] at h
  exact h

theorem Inv.die {sig : ℕ} {up : Pipe PipeMsg} (inv : Inv s) (at_ : s.place = .polling)
    (recv : (s.peers t).up.recv PipeMsg.status = some (sig, up)) :
    Inv { s.setPeer t { s.peers t with up := up } with
      place := if sig = SIG_DIED then stopAll nt else .aborted } := by
  have hexp := inv.expected
  rw [at_] at hexp
  have haw : Awaits [.hello, .init] [] (s.peers t) := hexp t
  have hhears : Hears { s.peers t with up := up } := (inv.hears t).reads up _
  rcases third_of_said (inv.said t) haw.taken recv with ⟨rfl, htaken, -, -⟩ | ⟨rfl, -, -⟩
  · rw [if_pos rfl]
    refine inv.setPeer (said_read (inv.said t) recv) hhears ?_ (fun u hu h => ?_)
      (List.nodup_finRange nt)
    · simp only [stopAll, Expected, List.mem_finRange, if_true]
      exact .inr ⟨_, .inr (.inr rfl), haw.read htaken⟩
    · exact pending_of_expected (.inl at_) h
  · rw [if_neg (by decide)]
    exact inv.setPeer (said_read (inv.said t) recv) hhears trivial (fun _ _ _ => trivial)
      List.nodup_nil

theorem Inv.skip {ts : List (Fin nt)} (inv : Inv s) (at_ : s.place = .stopping (t :: ts))
    (none_ : (s.peers t).shim = false) :
    Inv { s with place := .stopping ts } := by
  have hnodup := inv.nodup
  rw [at_] at hnodup
  obtain ⟨ht, hts⟩ := List.nodup_cons.1 hnodup
  refine inv.goTo (fun u h => ?_) hts
  rw [at_] at h
  by_cases hu : u = t
  · subst hu
    have hpending : Pending (s.peers u) := by simpa [Expected] using h
    rcases hpending with hfresh | ⟨heard, -, haw⟩
    · simpa [Expected, ht] using ⟨none_, .inl hfresh.place⟩
    · rw [haw.shim] at none_
      cases none_
  · simpa [Expected, hu] using h

theorem Inv.stop {ts : List (Fin nt)} (inv : Inv s) (at_ : s.place = .stopping (t :: ts))
    (some_ : (s.peers t).shim = true) :
    Inv { s.tell t .stop with place := .stopped t ts } := by
  have hnodup := inv.nodup
  have hexp := inv.expected
  rw [at_] at hnodup hexp
  have hpending : Pending (s.peers t) := by simpa [Expected] using hexp t
  obtain ⟨heard, hheard, haw⟩ : ∃ heard, Heard heard ∧ Awaits heard [] (s.peers t) := by
    refine hpending.resolve_left fun hfresh => ?_
    rw [hfresh.shim] at some_
    cases some_
  refine inv.tell (fun _ => ⟨_, .inr (.inl rfl), haw.told.send .stop⟩) (fun _ => ?_) (fun h => ?_)
    (fun u hu h => ?_) hnodup
  · simpa [Expected] using ⟨heard, hheard, .inl (haw.send .stop)⟩
  · simpa [Expected] using ⟨heard, hheard, .inr ⟨h, haw⟩⟩
  · rw [at_] at h
    simpa [Expected, hu] using h

theorem Inv.gone {ts : List (Fin nt)} (inv : Inv s) (at_ : s.place = .stopped t ts)
    (exited : (s.peers t).place = .exited) :
    Inv { s.drop t with place := .stopping ts } := by
  have hnodup := inv.nodup
  rw [at_] at hnodup
  obtain ⟨ht, hts⟩ := List.nodup_cons.1 hnodup
  refine inv.setPeer (inv.said t) ((inv.hears t).reads _ false) ?_ (fun u hu h => ?_) hts
  · simpa [Expected, ht] using ⟨rfl, .inr (.inl exited)⟩
  · rw [at_] at h
    simpa [Expected, hu] using h

theorem Inv.term {ts : List (Fin nt)} (inv : Inv s) (at_ : s.place = .stopped t ts)
    (there : (s.peers t).place ≠ .exited) :
    Inv { s.tell t .term with place := .joining t ts } := by
  have hnodup := inv.nodup
  have hexp := inv.expected
  rw [at_] at hnodup hexp
  have hstopping : Stopping (s.peers t) := by simpa [Expected] using hexp t
  obtain ⟨heard, hheard, haw⟩ : ∃ heard, Heard heard ∧ Awaits heard [.stop] (s.peers t) := by
    obtain ⟨heard, hheard, haw | ⟨hexited, -⟩⟩ := hstopping
    · exact ⟨heard, hheard, haw⟩
    · exact absurd hexited there
  refine inv.tell (fun _ => ⟨_, .inr (.inr rfl), haw.told.send .term⟩) (fun _ => ?_)
    (fun h => absurd h there) (fun u hu h => ?_) hnodup
  · simpa [Expected] using ⟨heard, hheard, haw.send .term⟩
  · rw [at_] at h
    simpa [Expected, hu] using h

theorem Inv.join {ts : List (Fin nt)} {sig : ℕ} {up : Pipe PipeMsg} (inv : Inv s)
    (at_ : s.place = .joining t ts) (recv : (s.peers t).up.recv PipeMsg.status = some (sig, up)) :
    Inv { s.setPeer t { s.peers t with up := up, shim := false } with place := .stopping ts } := by
  have hnodup := inv.nodup
  have hexp := inv.expected
  rw [at_] at hnodup hexp
  obtain ⟨ht, hts⟩ := List.nodup_cons.1 hnodup
  have hjoining : Joining (s.peers t) := by simpa [Expected] using hexp t
  obtain ⟨heard, hheard, haw⟩ := hjoining
  refine inv.setPeer (said_read (inv.said t) recv) ((inv.hears t).reads up false) ?_
    (fun u hu h => ?_) hts
  · simp only [Expected, if_neg ht]
    refine ⟨rfl, .inr ?_⟩
    rcases hheard with rfl | hheard
    · rcases third_of_said (inv.said t) haw.taken recv with ⟨-, htaken, hpast, herr⟩ | ⟨-, hexited, -⟩
      · exact .inr ⟨hpast, herr, htaken⟩
      · exact .inl hexited
    · have hexited : (s.peers t).place = .exited :=
        last_of_said (inv.said t) (haw.taken.symm ▸ hheard) recv
      exact .inl hexited
  · rw [at_] at h
    simpa [Expected, hu] using h

theorem inv_of_turn {a : DaemonStep nt} (inv : Inv s) (h : Turn s a s') : Inv s' := by
  cases h with
  | zactorNew at_ => exact inv.zactorNew at_
  | handshake at_ recv => exact inv.handshake at_ recv
  | taskStart at_ recv => exact inv.taskStart at_ recv
  | register at_ ok =>
    cases ok with
    | true =>
      refine inv.goTo (fun u h => ?_) List.nodup_nil
      rw [at_] at h
      simpa [Expected] using h
    | false =>
      exact inv.goTo (fun u h => pending_of_expected (.inr (.inr at_)) h) (List.nodup_finRange nt)
  | newPkts at_ =>
    refine inv.goTo (fun u h => ?_) List.nodup_nil
    rw [at_] at h
    exact h
  | lookDone at_ =>
    refine inv.goTo (fun u h => ?_) List.nodup_nil
    rw [at_] at h
    exact h
  | look at_ =>
    split_ifs
    all_goals
      refine inv.goTo (fun u h => ?_) List.nodup_nil
      rw [at_] at h
      exact h
  | send at_ there => exact inv.send at_ there
  | die at_ recv => exact inv.die at_ recv
  | interrupt at_ =>
    exact inv.goTo (fun u h => pending_of_expected (.inl at_) h) (List.nodup_finRange nt)
  | unblock at_ gone =>
    exact inv.goTo (fun u h => pending_of_expected (.inr (.inl ⟨_, _, at_⟩)) h)
      (List.nodup_finRange nt)
  | allStopped at_ =>
    refine inv.goTo (fun u h => ?_) List.nodup_nil
    rw [at_] at h
    simpa [Expected] using h
  | skip at_ none_ => exact inv.skip at_ none_
  | stop at_ some_ => exact inv.stop at_ some_
  | gone at_ exited => exact inv.gone at_ exited
  | term at_ there => exact inv.term at_ there
  | join at_ recv => exact inv.join at_ recv

/-! ## Runs -/

variable {autoactivate : Fin nt → Bool} {a : DaemonStep nt} {as : List (DaemonStep nt)}

theorem step_eq_coordinate (alive : s.place ≠ .aborted) (ha : ∀ t b, a ≠ .thread t b) :
    step autoactivate a s = s.coordinate a := by
  unfold step
  rw [if_neg alive]
  cases a with
  | thread t b => exact absurd rfl (ha t b)
  | _ => rfl

/-- A step is one of a thread, or one of the coordinator. -/
theorem step_cases (h : step autoactivate a s = some s') : s.place ≠ .aborted ∧
    ((∃ t b p, a = .thread t b ∧ Move (autoactivate t) (s.peers t) b p ∧ s' = s.setPeer t p) ∨
      s.coordinate a = some s') := by
  obtain ⟨hplace, h⟩ := Option.ite_none_left_eq_some.1 h
  refine ⟨hplace, ?_⟩
  cases a with
  | thread t b =>
    obtain ⟨p, hp, rfl⟩ := Option.map_eq_some_iff.1 h
    exact .inl ⟨t, b, p, rfl, move_of_step hp, rfl⟩
  | _ => exact .inr h

theorem inv_of_move {b : ThreadStepOf} {p : Peer} (inv : Inv s)
    (h : Move (autoactivate t) (s.peers t) b p) : Inv (s.setPeer t p) :=
  inv.setPeer (said_of_move (inv.said t) h) (hears_of_move (inv.hears t) h)
    (expected_of_steps (steps_of_move h) (inv.expected t)) (fun _ _ h => h) inv.nodup

theorem inv_step (inv : Inv s) (calm : Calm a s) (h : step autoactivate a s = some s') : Inv s' := by
  obtain ⟨-, ⟨t, b, p, rfl, hmove, rfl⟩ | hcoord⟩ := step_cases h
  · exact inv_of_move inv hmove
  · exact inv_of_turn inv (turn_of_coordinate calm hcoord)

theorem inv_run (calm : Along (step autoactivate) Calm as (start nt))
    (h : run (step autoactivate) as (start nt) = some s) : Inv s :=
  invariant_of_along (fun _ _ _ => inv_step) inv_start calm h

theorem calm_of_notMem (h : .interrupt ∉ as) (s : Daemon nt) :
    Along (step autoactivate) Calm as s :=
  along_of_forall (fun a ha s => calm_of_ne (by rintro rfl; exact h ha) s) s

/-- A run that is interrupted once, in the loop of the coordinator. -/
theorem calm_of_interrupted {bs : List (DaemonStep nt)} (has : .interrupt ∉ as)
    (hbs : .interrupt ∉ bs) (h : run (step autoactivate) as s = some s')
    (at_ : s'.place = .polling) :
    Along (step autoactivate) Calm (as ++ .interrupt :: bs) s := by
  refine along_append (calm_of_notMem has s) fun s₁ hs₁ => ⟨?_, fun _ _ => calm_of_notMem hbs _⟩
  obtain rfl := Option.some.inj (hs₁.symm.trans h)
  exact calm_interrupt.2 (.inl at_)

/-- A task is started and woken up, and its packet handler fails. -/
def failing : List (DaemonStep 1) :=
  [.zactorNew, .thread (Fin.last 0) .hello, .handshake, .thread (Fin.last 0) (.setUp true),
    .taskStart, .register true, .thread (Fin.last 0) (.activate true), .newPkts, .look, .send, .look,
    .thread (Fin.last 0) .signal, .thread (Fin.last 0) (.handled .error true),
    .thread (Fin.last 0) .cleanup]

/-! ## The interface is closed after the loops -/

/-- When `s_coordinator_body` returns, so that the interface can be closed, no thread is in its
loop any more: each of them has exited, or has died and left its loop with an error that the
coordinator had not read, or was never started. -/
theorem loops_ended (calm : Along (step autoactivate) Calm as (start nt))
    (h : run (step autoactivate) as (start nt) = some s) (hret : s.place = .returned) (t : Fin nt) :
    (s.peers t).place = .unborn ∨ (s.peers t).place = .exited ∨ DiedUnread (s.peers t) := by
  have hexp := (inv_run calm h).expected t
  rw [hret] at hexp
  exact hexp.ended

theorem loops_ended_failing :
    ∃ s, run (step fun _ => true) (failing ++ [.interrupt, .stop, .term, .join, .stop]) (start 1) =
        some s ∧
      ((s.peers 0).place = .unborn ∨ (s.peers 0).place = .exited ∨ DiedUnread (s.peers 0)) :=
  have hfail : run (step fun _ => true) failing (start 1) = some _ := rfl
  have hrun : run (step fun _ => true) (failing ++ .interrupt :: [.stop, .term, .join, .stop])
    (start 1) = some _ := rfl
  ⟨_, hrun, loops_ended (calm_of_interrupted (by decide) (by decide) hfail rfl) hrun rfl 0⟩

/-! ## No wakeup is lost -/

/-- The wakeups that a step sends to a task. -/
def wakes (t : Fin nt) : DaemonStep nt → Daemon nt → ℕ
  | .send, s =>
    match s.place with
    | .sending u _ => if u = t then 1 else 0
    | _ => 0
  | _, _ => 0

/-- The wakeups that the thread of a task reads in a step. -/
def handles (t : Fin nt) : DaemonStep nt → Daemon nt → ℕ
  | .thread u .signal, s =>
    if u = t ∧ ((s.peers t).down.recv PipeMsg.status).map Prod.fst = some SIG_WAKEUP then 1 else 0
  | _, _ => 0

theorem sent_tell {msg : PipeMsg} (there : (s.peers t).place ≠ .exited) (u : Fin nt) :
    ((s.tell t msg).peers u).down.sent = (s.peers u).down.sent ++ if u = t then [msg] else [] := by
  rw [tell, if_neg there, setPeer_peers]
  split_ifs with hu
  · rw [hu]
    exact Pipe.sent_send _ _
  · rw [List.append_nil]

theorem wakes_of_ne {a : DaemonStep nt} (h : a ≠ .send) : wakes t a s = 0 := by
  cases a <;> first | rfl | exact absurd rfl h

theorem handles_of_ne {a : DaemonStep nt} (h : ∀ u, a ≠ .thread u .signal) : handles t a s = 0 := by
  cases a with
  | thread u b =>
    cases b <;> first | rfl | exact absurd rfl (h u)
  | _ => rfl

/-- What a change of one task does not touch is the same for all of them. -/
theorem setPeer_congr {β : Type} (f : Peer → β) {u : Fin nt} {p : Peer} (h : f p = f (s.peers u)) :
    f ((s.setPeer u p).peers t) = f (s.peers t) := by
  rw [setPeer_peers]
  split_ifs with hu
  · rw [h, hu]
  · rfl

/-- Of the steps of the coordinator, a wakeup is sent by `send` alone. -/
theorem count_sent_of_turn {a : DaemonStep nt} (h : Turn s a s') (t : Fin nt) :
    (s'.peers t).down.sent.count .wakeup = (s.peers t).down.sent.count .wakeup + wakes t a s := by
  have hother : ∀ (u : Fin nt) (msg : PipeMsg), msg ≠ .wakeup →
      ((s.tell u msg).peers t).down.sent.count .wakeup = (s.peers t).down.sent.count .wakeup := by
    intro u msg hmsg
    by_cases there : (s.peers u).place = .exited
    · rw [tell, if_pos there]
    · rw [sent_tell there t, List.count_append]
      split_ifs
      · rw [List.count_singleton, beq_eq_false_iff_ne.2 hmsg]
        rfl
      · rfl
  cases h with
  | @send u ts at_ there =>
    dsimp only
    rw [sent_tell there t, List.count_append, wakes, at_]
    dsimp only
    by_cases hu : t = u
    · rw [if_pos hu, if_pos hu.symm, List.count_singleton_self]
    · rw [if_neg hu, if_neg (Ne.symm hu), List.count_nil]
  | @stop u ts | @term u ts =>
    rw [wakes_of_ne (fun h => by cases h), Nat.add_zero]
    exact hother u _ (by decide)
  | zactorNew | handshake | taskStart | die | gone | join =>
    rw [wakes_of_ne (fun h => by cases h), Nat.add_zero]
    refine setPeer_congr (fun p => p.down.sent.count .wakeup) ?_
    rfl
  | _ =>
    rw [wakes_of_ne (fun h => by cases h), Nat.add_zero]

/-- The coordinator reads nothing of what it has sent. -/
theorem down_taken_of_turn {a : DaemonStep nt} (h : Turn s a s') (t : Fin nt) :
    (s'.peers t).down.taken = (s.peers t).down.taken := by
  have htell : ∀ (u : Fin nt) (msg : PipeMsg),
      ((s.tell u msg).peers t).down.taken = (s.peers t).down.taken := by
    intro u msg
    unfold tell
    split_ifs
    · rfl
    · exact setPeer_congr (fun p => p.down.taken) (by rfl)
  cases h with
  | send | stop | term => exact htell _ _
  | zactorNew | handshake | taskStart | die | gone | join =>
    refine setPeer_congr (fun p => p.down.taken) ?_
    rfl
  | _ => rfl

/-- A thread reads one wakeup in each step that is counted. -/
theorem count_taken_of_move {b : ThreadStepOf} {auto : Bool} {p : Peer} (inv : Inv s)
    (h : Move auto (s.peers t) b p) :
    p.down.taken.count .wakeup =
      (s.peers t).down.taken.count .wakeup + handles t (.thread t b) s := by
  have hsignal : ∀ sig down, (s.peers t).place = .polling →
      (s.peers t).down.recv PipeMsg.status = some (sig, down) →
        down.taken.count .wakeup =
          (s.peers t).down.taken.count .wakeup + handles t (.thread t .signal) s := by
    intro sig down at_ recv
    obtain ⟨j, hj⟩ := (inv.hears t).taken (by simp [at_, ThreadAt.Left])
    obtain ⟨tail, htail, told⟩ := (inv.hears t).told
    rw [handles, recv, Option.map_some]
    rcases recv_of_told htail told hj recv with ⟨rfl, htaken⟩ | ⟨rfl, -, htaken⟩
    · rw [if_pos ⟨rfl, rfl⟩, htaken, hj, List.count_replicate_self, List.count_replicate_self]
    · have hno : ¬ some SIG_STOP = some SIG_WAKEUP := by decide
      rw [if_neg fun h => hno h.2, htaken, hj, List.count_append]
      rfl
  cases h with
  | stop at_ down recv => exact hsignal _ down at_ recv
  | inactive at_ sig down recv | wakeup at_ sig down recv => exact hsignal sig down at_ recv
  | handled | fails =>
    rw [handles_of_ne (fun _ h => by cases h), Nat.add_zero]
    rfl
  | _ => rw [handles_of_ne (fun _ h => by cases h), Nat.add_zero]

/-- A thread that was told to stop has read all that was sent to it before. -/
theorem wakeup_notMem_queue (hears : Hears p') (h : .stop ∈ p'.down.taken) :
    .wakeup ∉ p'.down.queue := by
  obtain ⟨tail, htail, k, hk⟩ := hears.told
  intro hmem
  rw [Pipe.sent] at hk
  rcases List.append_eq_append_iff.1 hk with ⟨l, hrep, -⟩ | ⟨l, -, htail'⟩
  · have hstop : PipeMsg.stop ∈ List.replicate k PipeMsg.wakeup :=
      hrep ▸ List.mem_append_left _ h
    exact absurd (List.eq_of_mem_replicate hstop) (by decide)
  · exact wakeup_notMem htail (htail' ▸ List.mem_append_right _ hmem)

theorem counts_step {a : DaemonStep nt} (inv : Inv s) (calm : Calm a s)
    (h : step autoactivate a s = some s') (t : Fin nt) :
    (s'.peers t).down.sent.count .wakeup = (s.peers t).down.sent.count .wakeup + wakes t a s ∧
      (s'.peers t).down.taken.count .wakeup =
        (s.peers t).down.taken.count .wakeup + handles t a s := by
  obtain ⟨-, ⟨u, b, p, rfl, hmove, rfl⟩ | hcoord⟩ := step_cases h
  · rw [setPeer_peers]
    split_ifs with hu
    · subst hu
      refine ⟨?_, count_taken_of_move inv hmove⟩
      rw [(steps_of_move hmove).told, wakes_of_ne (fun h => by cases h), Nat.add_zero]
    · refine ⟨(Nat.add_zero _).symm, ?_⟩
      cases b with
      | signal => rw [handles, if_neg fun h => hu h.1.symm, Nat.add_zero]
      | _ => exact (Nat.add_zero _).symm
  · have hturn := turn_of_coordinate calm hcoord
    refine ⟨count_sent_of_turn hturn t, ?_⟩
    rw [down_taken_of_turn hturn t, handles_of_ne, Nat.add_zero]
    rintro u rfl
    cases hturn

end Daemon

end Tesd
