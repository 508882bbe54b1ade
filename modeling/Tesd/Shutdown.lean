import Mathlib.Algebra.BigOperators.Group.Finset.Basic
import Mathlib.Algebra.Order.BigOperators.Group.Finset
import Tesd.SupervisionInv

/-!
# The end of the daemon

What `zactor_destroy` waits for, which assertions can fail, where the coordinator can be stuck, and
that it gets to its end whenever it is interrupted.
-/

namespace Tesd

open Runs

/-- A bound for the steps of a thread that are still to be taken, but for the wakeups. -/
def ThreadAt.left : ThreadAt → ℕ
  | .unborn | .exited => 0
  | .born => 9
  | .opening => 8
  | .activating => 7
  | .handling => 6
  | .polling => 5
  | .cleanup => 3
  | .finishing => 2
  | .returned => 1

namespace Peer

variable {p p' : Peer}

/-- A bound for the steps of a thread that are still to be taken. -/
def left (p : Peer) : ℕ := p.place.left + 2 * p.down.queue.length

theorem left_of_move {auto : Bool} {b : ThreadStepOf} (hb : ∀ active ends, b ≠ .request active ends)
    (h : Move auto p b p') : p'.left < p.left := by
  unfold left
  cases h with
  | stop at_ down recv | inactive at_ sig down recv | wakeup at_ sig down recv =>
    have := Pipe.length_queue_of_recv recv
    simp only [at_, ThreadAt.left]
    omega
  | request | ends => exact absurd rfl (hb _ _)
  | _ at_ => simp [at_, ThreadAt.left, conclude]

/-- The thread has died, and the coordinator has still to read that it did. -/
def Unread (p : Peer) : Prop :=
  p.place.Past ∧ p.error = true ∧ p.up.taken = [.hello, .init]

/-- A thread is never told anything else than signals by the other one. -/
theorem recv_of_queue_ne (said : Said p) (hne : p.up.queue ≠ []) :
    ∃ sig up, p.up.recv PipeMsg.status = some (sig, up) := by
  obtain ⟨m, rest, hqueue⟩ := List.exists_cons_of_ne_nil hne
  obtain ⟨n, rfl⟩ := said.signal (m := m) (by simp [Pipe.sent, hqueue])
  exact ⟨n, _, recv_signal hqueue⟩

/-- There is something to read of a thread that has exited, or has died without this being read. -/
theorem queue_ne_nil (said : Said p) (heard : Heard p.up.taken)
    (h : p.place = .exited ∨ Unread p) : p.up.queue ≠ [] := by
  intro hqueue
  have hsent : p.up.sent = p.up.taken := by rw [Pipe.sent, hqueue, List.append_nil]
  unfold Said at said
  rcases h with hplace | ⟨hpast, herr, htaken⟩
  · rw [hplace] at said
    obtain ⟨l, ⟨-, rfl | rfl⟩ | ⟨-, rfl⟩, hl⟩ := said <;>
      rcases heard with h | h | h <;> rw [hsent, h] at hl <;>
        simp [SIG_INIT, SIG_DIED] at hl
  · rw [htaken] at hsent
    cases hplace : p.place <;> simp [hplace, ThreadAt.Past] at hpast <;>
      simp [hplace, Farewell, herr, hsent, SIG_INIT, SIG_DIED] at said

/-- A thread that has been created goes on, unless it has exited, or is in its loop and there is
nothing for it to read. -/
theorem exists_step (auto : Bool) (born : p.place ≠ .unborn) (hne : p.place ≠ .exited)
    (reads : p.place = .polling → ∃ sig down, p.down.recv PipeMsg.status = some (sig, down)) :
    ∃ b p', Peer.step auto b p = some p' ∧ ∀ active ends, b ≠ .request active ends := by
  cases hplace : p.place with
  | unborn => exact absurd hplace born
  | exited => exact absurd hplace hne
  | born => exact ⟨.hello, _, if_pos hplace, nofun⟩
  | opening => exact ⟨.setUp false, _, (if_neg (not_not.2 hplace)).trans (if_neg (by decide)), nofun⟩
  | activating => exact ⟨.activate true, _, (if_neg (not_not.2 hplace)).trans (if_pos rfl), nofun⟩
  | handling => exact ⟨.handled .zero true, _, if_neg (not_not.2 hplace), nofun⟩
  | cleanup => exact ⟨.cleanup, _, if_pos hplace, nofun⟩
  | finishing => exact ⟨.fin, _, if_pos hplace, nofun⟩
  | returned => exact ⟨.exit, _, if_pos hplace, nofun⟩
  | polling =>
    obtain ⟨sig, down, hrecv⟩ := reads hplace
    exact ⟨.signal, _, (if_neg (not_not.2 hplace)).trans (congrArg _ hrecv), nofun⟩

/-- A thread in its loop that is told to stop has something to read. -/
theorem exists_recv_of_told (hears : Hears p) (told : Told [.stop, .term] p)
    (at_ : p.place = .polling) : ∃ sig down, p.down.recv PipeMsg.status = some (sig, down) := by
  obtain ⟨j, hj⟩ := hears.taken (by simp [at_, ThreadAt.Left])
  obtain ⟨k, hk⟩ := told
  rw [Pipe.sent, hj] at hk
  obtain ⟨d, -, hqueue⟩ := rest_of_replicate (by decide) hk
  cases d with
  | zero => exact ⟨_, _, recv_signal hqueue⟩
  | succ d => exact ⟨_, _, recv_signal hqueue⟩

/-- A thread of which everything was read, and that was not yet ready then, is not in its loop. -/
theorem not_polling (said : Said p) (hqueue : p.up.queue = [])
    (htaken : p.up.taken = [] ∨ p.up.taken = [.hello]) :
    p.place ≠ .polling ∧ p.place ≠ .exited := by
  have hsent : p.up.sent = p.up.taken := by rw [Pipe.sent, hqueue, List.append_nil]
  unfold Said at said
  constructor
  · intro at_
    rcases htaken with h | h <;> simp [at_, hsent, h] at said
  · intro at_
    simp only [at_, hsent] at said
    obtain ⟨l, ⟨-, rfl | rfl⟩ | ⟨-, rfl⟩, hl⟩ := said <;> rcases htaken with h | h <;> simp [h] at hl

end Peer

namespace Daemon

open Peer

variable {nt : ℕ} {autoactivate : Fin nt → Bool} {s s' : Daemon nt} {t : Fin nt}
  {ts : List (Fin nt)} {a : DaemonStep nt} {as : List (DaemonStep nt)}

/-! ## What `zactor_destroy` waits for -/

theorem Inv.joining (inv : Inv s) (at_ : s.place = .joining t ts) : Joining (s.peers t) := by
  have hexp := inv.expected t
  rw [at_] at hexp
  simpa [Expected] using hexp

theorem step_join (at_ : s.place = .joining t ts) :
    step autoactivate .join s = (s.wait t fun _ => .stopping ts).map (drop t) := by
  rw [step_eq_coordinate (by simp [at_]) fun _ _ h => by cases h]
  simp only [coordinate, at_]

theorem exists_wait_iff {f : ℕ → CoordinatorAt nt} (said : Said (s.peers t)) :
    (∃ s', s.wait t f = some s') ↔ (s.peers t).up.queue ≠ [] := by
  constructor
  · rintro ⟨s', h⟩ hqueue
    obtain ⟨sig, up, hrecv, -⟩ := wait_eq_some h
    rw [Pipe.recv_of_queue_nil hqueue] at hrecv
    cases hrecv
  · intro hne
    obtain ⟨sig, up, hrecv⟩ := recv_of_queue_ne said hne
    exact ⟨_, by rw [wait, hrecv]; rfl⟩

/-- The coordinator has not begun to stop the tasks. -/
def Before : CoordinatorAt nt → Prop
  | .starting _ | .created _ _ | .started _ _ | .polling | .waking _ | .sending _ _ => True
  | _ => False

/-- A handler of the task has ended its loop without an error that is signalled. -/
def Silent (p : Peer) : Prop := p.place.Left ∧ p.error = false

/-- A handler of a frontend or of a timer ends the loop of a task. -/
def EndsLoop (a : DaemonStep nt) : Prop := ∃ t active, a = .thread t (.request active true)

/-- Every task whose loop has ended has died or been stopped. -/
structure Loud (s : Daemon nt) : Prop where
  alive : s.place ≠ .aborted
  loud : Before s.place → ∀ t, ¬ Silent (s.peers t)

theorem loud_start : Loud (start nt) :=
  ⟨nofun, fun _ _ h => h.1⟩

/-- Before the tasks are stopped, only wakeups are sent to them. -/
theorem Inv.told (inv : Inv s) (before : Before s.place) (t : Fin nt) : Told [] (s.peers t) := by
  have hexp := inv.expected t
  revert before hexp
  cases s.place <;> intro before hexp <;> simp only [Before, Expected] at before hexp
  case starting | created | started =>
    split_ifs at hexp <;> exact hexp.told
  all_goals exact hexp.told

theorem not_silent_of_move {b : ThreadStepOf} {p p' : Peer} {auto : Bool} (hears : Hears p)
    (told : Told [] p) (loud : ¬ Silent p) (hb : ∀ active, b ≠ .request active true)
    (h : Move auto p b p') : ¬ Silent p' := by
  cases h with
  | stop at_ down recv =>
    -- `SIG_STOP` has not been sent
    obtain ⟨j, hj⟩ := hears.taken (by simp [at_, ThreadAt.Left])
    rcases recv_of_told (.inl rfl) told hj recv with ⟨h, -⟩ | ⟨-, h, -⟩
    · cases h
    · exact absurd rfl h
  | ends at_ active => exact absurd rfl (hb active)
  | fails at_ rc readersOk err => exact fun h => absurd (err.symm.trans h.2) (by decide)
  | dies at_ err => exact fun h => absurd (err.symm.trans h.2) (by decide)
  | _ => simp_all [Silent, ThreadAt.Left]

theorem silent_setPeer {p : Peer} {u : Fin nt} (hu : Silent ((s.setPeer t p).peers u))
    (h : Silent p → Silent (s.peers t)) : Silent (s.peers u) := by
  rw [setPeer_peers] at hu
  split_ifs at hu with hut
  · rw [hut]
    exact h hu
  · exact hu

theorem silent_tell {msg : PipeMsg} {u : Fin nt} (hu : Silent ((s.tell t msg).peers u)) :
    Silent (s.peers u) := by
  unfold tell at hu
  split_ifs at hu
  · exact hu
  · exact silent_setPeer hu id

/-- The coordinator does not go back, and it ends no loop itself. -/
theorem turn_silent (h : Turn s a s') :
    (Before s'.place → Before s.place) ∧ ∀ u, Silent (s'.peers u) → Silent (s.peers u) := by
  cases h with
  | zactorNew at_ => exact ⟨fun _ => by simp [at_, Before], fun u hu => silent_setPeer hu fun h => h.1.elim⟩
  | handshake at_ | taskStart at_ | die at_ =>
    exact ⟨fun _ => by simp [at_, Before], fun u hu => silent_setPeer hu id⟩
  | send at_ => exact ⟨fun _ => by simp [at_, Before], fun u => silent_tell⟩
  | register at_ | newPkts at_ | lookDone at_ | look at_ | interrupt at_ | unblock at_ =>
    exact ⟨fun _ => by simp [at_, Before], fun u => id⟩
  | allStopped at_ | skip at_ => exact ⟨False.elim, fun u => id⟩
  | stop at_ | term at_ => exact ⟨False.elim, fun u => silent_tell⟩
  | gone at_ | join at_ => exact ⟨False.elim, fun u hu => silent_setPeer hu id⟩

/-- The assertions of the coordinator hold, that of `s_die_hn` if the loop did not end silently. -/
theorem alive_of_turn (inv : Inv s) (hdie : ∀ t, a = .die t → ¬ Silent (s.peers t))
    (h : Turn s a s') : s'.place ≠ .aborted := by
  have hexp := inv.expected
  cases h with
  | @taskStart t ts sig up at_ recv =>
    rw [at_] at hexp
    have haw : Awaits [.hello] [] (s.peers t) := by simpa [Expected] using hexp t
    rcases second_of_said (inv.said t) haw.taken recv with ⟨rfl, -⟩ | ⟨rfl, -⟩ <;>
      simp [stopAll, SIG_INIT, SIG_DIED]
  | @die t sig up at_ recv =>
    rw [at_] at hexp
    have haw : Awaits [.hello, .init] [] (s.peers t) := hexp t
    rcases third_of_said (inv.said t) haw.taken recv with ⟨rfl, -⟩ | ⟨-, hexited, herr⟩
    · simp [stopAll]
    · exact absurd ⟨by simp [hexited, ThreadAt.Left], herr⟩ (hdie t rfl)
  | register at_ ok => cases ok <;> simp [stopAll]
  | look at_ =>
    dsimp only
    split_ifs <;> simp
  | _ => simp [stopAll]

theorem loud_step (inv : Inv s) (loud : Loud s) (calm : Calm a s) (ha : ¬ EndsLoop a)
    (h : step autoactivate a s = some s') : Loud s' := by
  obtain ⟨-, ⟨t, b, p, rfl, hmove, rfl⟩ | hcoord⟩ := step_cases h
  · refine ⟨loud.alive, fun before u => ?_⟩
    rw [setPeer_peers]
    split_ifs with hu
    · have hb : ∀ active, b ≠ .request active true := by
        rintro active rfl
        exact ha ⟨t, active, rfl⟩
      exact not_silent_of_move (inv.hears t) (inv.told before t) (loud.loud before t) hb hmove
    · exact loud.loud before u
  · have hturn := turn_of_coordinate calm hcoord
    obtain ⟨hbefore, hsilent⟩ := turn_silent hturn
    refine ⟨alive_of_turn inv ?_ hturn, fun before u hu =>
      loud.loud (hbefore before) u (hsilent u hu)⟩
    rintro t rfl
    cases hturn with
    | die at_ => exact loud.loud (by simp [at_, Before]) t

theorem loud_run {bs : List (DaemonStep nt)} (inv : Inv s) (loud : Loud s)
    (calm : Along (step autoactivate) Calm bs s) (hbs : ∀ b ∈ bs, ¬ EndsLoop b)
    (h : run (step autoactivate) bs s = some s') : Loud s' := by
  have along := along_and calm (along_of_forall (fun b hb (_ : Daemon nt) => hbs b hb) s)
  have keep : ∀ b s s', Inv s ∧ Loud s → Calm b s ∧ ¬ EndsLoop b →
      step autoactivate b s = some s' → Inv s' ∧ Loud s' := fun b s s' hs hb hstep =>
    ⟨inv_step hs.1 hb.1 hstep, loud_step hs.1 hs.2 hb.1 hb.2 hstep⟩
  exact (invariant_of_along keep ⟨inv, loud⟩ along h).2

/-- A thread that has left its loop goes on. -/
theorem exists_step_of_left {p : Peer} (auto : Bool) (left : p.place.Left)
    (hne : p.place ≠ .exited) : ∃ b p', Peer.step auto b p = some p' ∧
      (∀ active ends, b ≠ .request active ends) ∧ p'.place.Left ∧ p'.place.left < p.place.left ∧
      p'.error = p.error ∧ p'.up.taken = p.up.taken := by
  cases hplace : p.place with
  | cleanup =>
    refine ⟨.cleanup, _, if_pos hplace, nofun, trivial, Nat.lt_succ_self _, rfl, ?_⟩
    cases p.error <;> rfl
  | finishing =>
    exact ⟨.fin, _, if_pos hplace, nofun, trivial, Nat.lt_succ_self _, rfl, rfl⟩
  | returned =>
    exact ⟨.exit, _, if_pos hplace, nofun, trivial, Nat.lt_succ_self _, rfl, rfl⟩
  | exited => exact absurd hplace hne
  | _ => simp [hplace, ThreadAt.Left] at left

theorem step_thread {b : ThreadStepOf} {p : Peer} (alive : s.place ≠ .aborted)
    (h : Peer.step (autoactivate t) b (s.peers t) = some p) :
    step autoactivate (.thread t b) s = some (s.setPeer t p) := by
  unfold step
  rw [if_neg alive]
  dsimp only
  rw [h]
  rfl

/-- A thread that has left its loop can exit. -/
theorem exists_exit (autoactivate : Fin nt → Bool) (alive : s.place ≠ .aborted)
    (left : (s.peers t).place.Left) :
    ∃ (bs : List (DaemonStep nt)) (p : Peer), run (step autoactivate) bs s = some (s.setPeer t p) ∧
      (∀ b ∈ bs, ∃ c, b = .thread t c ∧ ∀ active ends, c ≠ .request active ends) ∧
      p.place = .exited ∧ p.error = (s.peers t).error ∧ p.up.taken = (s.peers t).up.taken := by
  induction hn : (s.peers t).place.left using Nat.strong_induction_on generalizing s with
  | _ n ih =>
    by_cases hexited : (s.peers t).place = .exited
    · exact ⟨[], s.peers t, by simp [run, setPeer], by simp, hexited, rfl, rfl⟩
    · obtain ⟨b, p, hstep, hb, hleft, hlt, herr, htaken⟩ :=
        exists_step_of_left (autoactivate t) left hexited
      obtain ⟨bs, p', hbs, hthread, hplace', herr', htaken'⟩ := ih p.place.left (hn ▸ hlt)
        (s := s.setPeer t p) alive (by simpa using hleft) (by simp)
      rw [setPeer_setPeer] at hbs
      rw [setPeer_self] at herr' htaken'
      refine ⟨.thread t b :: bs, p', ?_, ?_, hplace', herr'.trans herr, htaken'.trans htaken⟩
      · rw [run, step_thread alive hstep]
        exact hbs
      · rintro c (_ | ⟨_, hc⟩)
        · exact ⟨b, rfl, hb⟩
        · exact hthread c hc

/-- A handler of a timer ends the loop of a task. -/
def ending : List (DaemonStep 1) :=
  [.zactorNew, .thread (Fin.last 0) .hello, .handshake, .thread (Fin.last 0) (.setUp true),
    .taskStart, .register true, .thread (Fin.last 0) (.activate true),
    .thread (Fin.last 0) (.request true true)]

/-- A step that needs no packets, no client, no timer and no signal of the operating system, and
that is not one of the coordinator's loop. -/
def Own : DaemonStep nt → Prop
  | .die _ | .interrupt | .newPkts | .thread _ (.request _ _) => False
  | _ => True

/-- A bound for the steps of the coordinator that are still to be taken, until it is in its loop or
has returned. -/
def CoordinatorAt.left : CoordinatorAt nt → ℕ
  | .starting ts => 10 * nt + 20 * ts.length + 3
  | .created _ ts => 10 * nt + 20 * ts.length + 5
  | .started _ ts => 10 * nt + 20 * ts.length + 4
  | .polling => 10 * nt + 2
  | .waking ts => 10 * nt + 6 * ts.length + 3
  | .sending _ ts => 10 * nt + 6 * ts.length + 6
  | .stopping ts => 10 * ts.length + 1
  | .stopped _ ts => 10 * ts.length + 7
  | .joining _ ts => 10 * ts.length + 3
  | .returned | .aborted => 0

def left (s : Daemon nt) : ℕ := CoordinatorAt.left s.place + ∑ t, (s.peers t).left

theorem sum_setPeer (f : Peer → ℕ) (t : Fin nt) (p : Peer) (s : Daemon nt) :
    (∑ u, f ((s.setPeer t p).peers u)) + f (s.peers t) = (∑ u, f (s.peers u)) + f p := by
  rw [← Finset.add_sum_erase _ _ (Finset.mem_univ t), ← Finset.add_sum_erase _ (fun u => f (s.peers u))
    (Finset.mem_univ t), setPeer_self]
  have hrest : ∑ u ∈ Finset.univ.erase t, f ((s.setPeer t p).peers u) =
      ∑ u ∈ Finset.univ.erase t, f (s.peers u) :=
    Finset.sum_congr rfl fun u hu => by rw [setPeer_of_ne s p (Finset.ne_of_mem_erase hu)]
  omega

theorem left_tell (msg : PipeMsg) (t : Fin nt) (s : Daemon nt) :
    ∑ u, ((s.tell t msg).peers u).left ≤ (∑ u, (s.peers u).left) + 2 := by
  unfold tell
  split_ifs
  · omega
  · have hsum := sum_setPeer Peer.left t { s.peers t with down := (s.peers t).down.send msg } s
    simp only [Peer.left, Pipe.length_queue_send] at hsum ⊢
    omega

theorem left_of_turn (own : Own a) (h : Turn s a s') : s'.left < s.left := by
  unfold left
  cases h with
  | @zactorNew t ts at_ =>
    have hsum := sum_setPeer Peer.left t { s.peers t with place := .born, shim := true } s
    simp only [Peer.left, at_, CoordinatorAt.left, List.length_cons, ThreadAt.left] at hsum ⊢
    omega
  | @handshake t ts sig up at_ =>
    have hsum := sum_setPeer Peer.left t { s.peers t with up := up } s
    simp only [Peer.left, at_, CoordinatorAt.left] at hsum ⊢
    omega
  | @taskStart t ts sig up at_ =>
    have hsum := sum_setPeer Peer.left t { s.peers t with up := up } s
    split_ifs <;> simp only [Peer.left, at_, CoordinatorAt.left, stopAll, List.length_finRange] at hsum ⊢ <;>
      omega
  | register at_ ok =>
    cases ok <;> simp [at_, CoordinatorAt.left, stopAll]
  | lookDone at_ => simp [at_, CoordinatorAt.left]
  | look at_ =>
    simp only [at_, CoordinatorAt.left, List.length_cons]
    split_ifs <;> simp only <;> omega
  | @send t ts at_ =>
    have hsum := left_tell .wakeup t s
    simp only [at_, CoordinatorAt.left] at hsum ⊢
    omega
  | allStopped at_ => simp [at_, CoordinatorAt.left]
  | skip at_ => simp [at_, CoordinatorAt.left]
  | @stop t ts at_ =>
    have hsum := left_tell .stop t s
    simp only [at_, CoordinatorAt.left, List.length_cons] at hsum ⊢
    omega
  | @gone t ts at_ =>
    have hsum := sum_setPeer Peer.left t { s.peers t with shim := false } s
    simp only [drop, Peer.left, at_, CoordinatorAt.left] at hsum ⊢
    omega
  | @term t ts at_ =>
    have hsum := left_tell .term t s
    simp only [at_, CoordinatorAt.left] at hsum ⊢
    omega
  | @join t ts sig up at_ =>
    have hsum := sum_setPeer Peer.left t { s.peers t with up := up, shim := false } s
    simp only [Peer.left, at_, CoordinatorAt.left] at hsum ⊢
    omega
  | newPkts | die | interrupt | unblock => exact own.elim

/-- Every step that the daemon takes by itself brings it closer to its rest. -/
theorem left_lt (own : Own a) (h : step autoactivate a s = some s') : s'.left < s.left := by
  obtain ⟨-, ⟨t, b, p, rfl, hmove, rfl⟩ | hcoord⟩ := step_cases h
  · have hb : ∀ active ends, b ≠ .request active ends := by
      rintro active ends rfl
      exact own
    have hlt := left_of_move hb hmove
    have hsum := sum_setPeer Peer.left t p s
    unfold left
    rw [setPeer_place]
    omega
  · have calm : Calm a s := calm_of_ne (by rintro rfl; exact own) s
    exact left_of_turn own (turn_of_coordinate calm hcoord)

/-- The coordinator is in `tasks_wakeup` and sends to a task whose thread is not there any more. -/
def Blocked (s : Daemon nt) (t : Fin nt) : Prop :=
  (∃ ts, s.place = .sending t ts) ∧ (s.peers t).place = .exited

/-- A thread that the coordinator waits for, and of which there is nothing to read, goes on. -/
theorem exists_own_thread (autoactivate : Fin nt → Bool) (alive : s.place ≠ .aborted)
    {b : ThreadStepOf} {p : Peer} (h : Peer.step (autoactivate t) b (s.peers t) = some p)
    (hb : ∀ active ends, b ≠ .request active ends) :
    ∃ a s', Own a ∧ step autoactivate a s = some s' := by
  refine ⟨.thread t b, _, ?_, step_thread alive h⟩
  cases b <;> first | exact absurd rfl (hb _ _) | trivial

theorem exists_own_coordinate {a : DaemonStep nt} (autoactivate : Fin nt → Bool)
    (alive : s.place ≠ .aborted) (own : Own a) (ha : ∀ t b, a ≠ .thread t b)
    (h : s.coordinate a = some s') : ∃ a s', Own a ∧ step autoactivate a s = some s' :=
  ⟨a, s', own, (step_eq_coordinate alive ha).trans h⟩

/-- The thread that the coordinator waits for goes on if there is nothing to read of it. -/
theorem exists_own_of_waiting {f : ℕ → CoordinatorAt nt} {a : DaemonStep nt}
    (autoactivate : Fin nt → Bool) (alive : s.place ≠ .aborted) (inv : Inv s) (own : Own a)
    (ha : ∀ t b, a ≠ .thread t b) (hwait : s.coordinate a = s.wait t f ∨
      s.coordinate a = (s.wait t f).map (drop t)) (born : (s.peers t).place ≠ .unborn)
    (exits : (s.peers t).up.queue = [] → (s.peers t).place ≠ .exited)
    (reads : (s.peers t).up.queue = [] → (s.peers t).place = .polling →
      ∃ sig down, (s.peers t).down.recv PipeMsg.status = some (sig, down)) :
    ∃ a s', Own a ∧ step autoactivate a s = some s' := by
  by_cases hqueue : (s.peers t).up.queue = []
  · obtain ⟨b, p, hstep, hb⟩ := exists_step (autoactivate t) born (exits hqueue) (reads hqueue)
    exact exists_own_thread autoactivate alive hstep hb
  · obtain ⟨s₁, hs₁⟩ := (exists_wait_iff (f := f) (inv.said t)).2 hqueue
    rcases hwait with h | h
    · exact exists_own_coordinate autoactivate alive own ha (h.trans hs₁)
    · exact exists_own_coordinate autoactivate alive own ha (h.trans (by rw [hs₁]; rfl))

/-- Unless the coordinator is in its loop, has returned or is blocked in `tasks_wakeup`, the daemon
can go on by itself. -/
theorem exists_own (autoactivate : Fin nt → Bool) (inv : Inv s) (alive : s.place ≠ .aborted)
    (hloop : s.place ≠ .polling) (hret : s.place ≠ .returned) (hblocked : ∀ t, ¬ Blocked s t) :
    ∃ a s', Own a ∧ step autoactivate a s = some s' := by
  have hexp := inv.expected
  have hcoord : ∀ a s', Own a → (∀ t b, a ≠ .thread t b) → s.coordinate a = some s' →
      ∃ a s', Own a ∧ step autoactivate a s = some s' :=
    fun a s' => exists_own_coordinate autoactivate alive
  cases hplace : s.place with
  | polling => exact absurd hplace hloop
  | returned => exact absurd hplace hret
  | aborted => exact absurd hplace alive
  | starting ts =>
    cases ts with
    | nil => exact hcoord (.register true) _ trivial (by simp) (by simp [coordinate, hplace]; rfl)
    | cons t ts => exact hcoord .zactorNew _ trivial (by simp) (by simp [coordinate, hplace]; rfl)
  | waking ts =>
    cases ts with
    | nil => exact hcoord .look _ trivial (by simp) (by simp [coordinate, hplace]; rfl)
    | cons t ts => exact hcoord .look _ trivial (by simp) (by simp [coordinate, hplace]; rfl)
  | sending t ts =>
    have hthere : (s.peers t).place ≠ .exited := fun h => hblocked t ⟨⟨ts, hplace⟩, h⟩
    exact hcoord .send _ trivial (by simp) (by simp [coordinate, hplace, hthere]; rfl)
  | stopping ts =>
    cases ts with
    | nil => exact hcoord .stop _ trivial (by simp) (by simp [coordinate, hplace]; rfl)
    | cons t ts =>
      by_cases hshim : (s.peers t).shim = false
      · exact hcoord .stop _ trivial (by simp) (by simp [coordinate, hplace, hshim]; rfl)
      · exact hcoord .stop _ trivial (by simp) (by simp [coordinate, hplace, hshim]; rfl)
  | stopped t ts =>
    by_cases hexited : (s.peers t).place = .exited
    · exact hcoord .term _ trivial (by simp) (by simp [coordinate, hplace, hexited]; rfl)
    · exact hcoord .term _ trivial (by simp) (by simp [coordinate, hplace, hexited]; rfl)
  | created t ts =>
    rw [hplace] at hexp
    have haw : Awaits [] [] (s.peers t) := by simpa [Expected] using hexp t
    have hearly := fun hqueue => not_polling (inv.said t) hqueue (.inl haw.taken)
    exact exists_own_of_waiting autoactivate alive inv (a := .handshake)
      (f := fun _ => .started t ts) trivial (by simp) (.inl (by simp [coordinate, hplace])) haw.born
      (fun hqueue => (hearly hqueue).2) (fun hqueue at_ => absurd at_ (hearly hqueue).1)
  | started t ts =>
    rw [hplace] at hexp
    have haw : Awaits [.hello] [] (s.peers t) := by simpa [Expected] using hexp t
    have hearly := fun hqueue => not_polling (inv.said t) hqueue (.inr haw.taken)
    exact exists_own_of_waiting autoactivate alive inv (a := .taskStart) (f := fun sig =>
        if sig = SIG_DIED then stopAll nt else if sig = SIG_INIT then .starting ts else .aborted)
      trivial (by simp) (.inl (by simp only [coordinate, hplace])) haw.born
      (fun hqueue => (hearly hqueue).2) (fun hqueue at_ => absurd at_ (hearly hqueue).1)
  | joining t ts =>
    obtain ⟨heard, hheard, haw⟩ := inv.joining hplace
    exact exists_own_of_waiting autoactivate alive inv (a := .join) (f := fun _ => .stopping ts)
      trivial (by simp) (.inr (by simp only [coordinate, hplace])) haw.born
      (fun hqueue h => queue_ne_nil (inv.said t) (haw.taken.symm ▸ hheard) (.inl h) hqueue)
      (fun _ at_ => exists_recv_of_told (inv.hears t) haw.told at_)

/-- What holds of every state that a run can reach, as long as no assertion has failed. -/
structure Reached (s : Daemon nt) : Prop where
  inv : Inv s
  alive : s.place ≠ .aborted

theorem Reached.own (reached : Reached s) (own : Own a) (h : step autoactivate a s = some s') :
    Reached s' ∧ (Before s'.place → Before s.place) := by
  have calm : Calm a s := calm_of_ne (by rintro rfl; exact own) s
  refine ⟨⟨inv_step reached.inv calm h, ?_⟩, ?_⟩
  all_goals obtain ⟨-, ⟨t, b, p, rfl, hmove, rfl⟩ | hcoord⟩ := step_cases h
  · exact reached.alive
  · refine alive_of_turn reached.inv ?_ (turn_of_coordinate calm hcoord)
    rintro t rfl
    exact own.elim
  · exact id
  · exact (turn_silent (turn_of_coordinate calm hcoord)).1

/-- Left to itself, the daemon comes to a rest. -/
theorem Reached.rests (autoactivate : Fin nt → Bool) (reached : Reached s) :
    ∃ bs s', (∀ b ∈ bs, Own b) ∧ run (step autoactivate) bs s = some s' ∧ Reached s' ∧
      (Before s'.place → Before s.place) ∧ ∀ a s'', Own a → step autoactivate a s' ≠ some s'' := by
  induction hn : s.left using Nat.strong_induction_on generalizing s with
  | _ n ih =>
    by_cases hmore : ∃ a s', Own a ∧ step autoactivate a s = some s'
    · obtain ⟨a, s₁, hown, hstep⟩ := hmore
      obtain ⟨reached₁, hbefore⟩ := reached.own hown hstep
      obtain ⟨bs, s', hbs, hrun, reached', hbefore', hrest⟩ :=
        ih s₁.left (hn ▸ left_lt hown hstep) reached₁ rfl
      refine ⟨a :: bs, s', ?_, by rw [run, hstep]; exact hrun, reached', hbefore ∘ hbefore', hrest⟩
      rintro b (_ | ⟨_, hb⟩)
      · exact hown
      · exact hbs b hb
    · exact ⟨[], s, by simp, rfl, reached, id, fun a s' hown hstep => hmore ⟨a, s', hown, hstep⟩⟩

/-- A coordinator that has returned, and threads that have exited or were never started. -/
def Ended (s : Daemon nt) : Prop :=
  s.place = .returned ∧ ∀ t, (s.peers t).place = .unborn ∨ (s.peers t).place = .exited

theorem Reached.ended (reached : Reached s) (hret : s.place = .returned)
    (rest : ∀ a s', Own a → step autoactivate a s ≠ some s') : Ended s := by
  refine ⟨hret, fun t => ?_⟩
  by_contra hgo
  rw [not_or] at hgo
  have hexp := reached.inv.expected t
  rw [hret] at hexp
  have hpast : (s.peers t).place.Past := by
    rcases hexp.ended with h | h | h
    · exact absurd h hgo.1
    · exact absurd h hgo.2
    · exact h.1
  obtain ⟨b, p, hstep, hb⟩ := exists_step (autoactivate t) hgo.1 hgo.2 fun at_ => by
    rw [at_] at hpast
    exact hpast.elim
  obtain ⟨a, s', hown, h⟩ := exists_own_thread autoactivate reached.alive hstep hb
  exact rest a s' hown h

theorem reached_of_run (calm : Along (step autoactivate) Calm as (start nt))
    (h : run (step autoactivate) as (start nt) = some s) (alive : s.place ≠ .aborted) : Reached s :=
  ⟨inv_run calm h, alive⟩

/-- A failed task is to be woken up again. -/
def blocking : List (DaemonStep 1) :=
  failing ++ [.newPkts, .thread (Fin.last 0) .fin, .thread (Fin.last 0) .exit, .look]

theorem Reached.interrupt (autoactivate : Fin nt → Bool) (reached : Reached s)
    (h : s.place = .polling ∨ ∃ t, Blocked s t) :
    ∃ s', step autoactivate .interrupt s = some s' ∧ Reached s' ∧ ¬ Before s'.place := by
  have calm : Calm .interrupt s :=
    calm_interrupt.2 (h.imp_right fun ⟨t, ⟨ts, hts⟩, _⟩ => ⟨t, ts, hts⟩)
  obtain ⟨s', hs', hplace⟩ : ∃ s', s.coordinate .interrupt = some s' ∧ s'.place = stopAll nt := by
    rcases h with h | ⟨t, ⟨ts, hts⟩, hexited⟩
    · exact ⟨{ s with place := stopAll nt }, by simp [coordinate, h], rfl⟩
    · exact ⟨{ s with place := stopAll nt }, by simp [coordinate, hts, hexited], rfl⟩
  have hstep : step autoactivate .interrupt s = some s' :=
    (step_eq_coordinate reached.alive fun _ _ h => by cases h).trans hs'
  exact ⟨s', hstep, ⟨inv_step reached.inv calm hstep, by simp [hplace, stopAll]⟩,
    by simp [hplace, stopAll, Before]⟩

end Daemon

end Tesd
