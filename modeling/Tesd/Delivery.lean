import Mathlib.Data.List.FinRange
import Tesd.Release

/-!
# Delivery on one ring

When only ring 0 receives packets, the packets that a task handles after its activation are the
first of those delivered from the ring's head on, in order and each once, however they are grouped
into wakeups and releases.  A wakeup that leaves the task active and its loop running leaves no
packet behind.
-/

namespace Tesd

/-- The calls for the first packets after an activation: nothing is missed before the first. -/
def firstCalls : List Slot → List Call
  | [] => []
  | p :: ps => ⟨p, 0⟩ :: callsFrom p.pkt.fseq ps

theorem fseqGap_pred (fseq : ℕ) : fseqGap fseq (((fseq : ℤ) - 1) % 2 ^ 16).toNat = 0 := by
  unfold fseqGap
  omega

theorem fseqGap_le (cur prev : ℕ) : fseqGap cur prev ≤ 0xFFFF := by
  unfold fseqGap
  omega

namespace Task

variable {n : ℕ} {δ : Type} {hooks : Hooks (n + 1) δ} {rings : Fin (n + 1) → Ring}
  {task task' : Task (n + 1) δ}

/-! ## One wakeup -/

/-- The task has read all rings but the first. -/
def OnlyFirst (rings : Fin (n + 1) → Ring) (task : Task (n + 1) δ) : Prop :=
  ∀ r, r ≠ 0 → task.heads r = (rings r).tail

/-- The calls for more packets. -/
def callsSince (task : Task (n + 1) δ) (ps : List Slot) : List Call :=
  if task.justActivated then firstCalls ps else callsFrom task.prevFseq ps

theorem nextRing_of_tail (only : task.OnlyFirst rings) (h : task.heads 0 = (rings 0).tail) :
    (task.nextRing rings).1.1 = none ∧ (task.nextRing rings).2 = task := by
  have hall : ∀ r ∈ List.finRange (n + 1), task.heads r = (rings r).tail := by
    intro r _
    by_cases hr : r = 0
    · rw [hr]
      exact h
    · exact only r hr
  unfold nextRing
  split_ifs
  · rw [firstRing_of_tail _ _ hall]
    exact ⟨rfl, rfl⟩
  · rw [closestRing_of_tail _ _ _ hall]
    exact ⟨rfl, rfl⟩

/-- The sequence number that the first packet of a wakeup is compared with. -/
def baseFseq (rings : Fin (n + 1) → Ring) (task : Task (n + 1) δ) : ℕ :=
  if task.justActivated then
    (((((rings 0).slot (task.heads 0)).pkt.fseq : ℤ) - 1) % 2 ^ 16).toNat
  else task.prevFseq

theorem nextRing_of_ne (only : task.OnlyFirst rings) (h : task.heads 0 ≠ (rings 0).tail) :
    (task.nextRing rings).1.1 = some 0 ∧
      (task.nextRing rings).2 = { task with prevFseq := task.baseFseq rings } := by
  have hrest : ∀ r ∈ (List.finRange n).map Fin.succ, task.heads r = (rings r).tail := by
    intro r hr
    obtain ⟨q, -, rfl⟩ := List.mem_map.1 hr
    exact only _ (Fin.succ_ne_zero q)
  unfold nextRing baseFseq
  rw [List.finRange_succ]
  split_ifs
  · rw [firstRing, if_neg (Ne.symm h)]
    dsimp only
    rw [if_pos (Or.inl (Fin.val_zero _)), firstRing_of_tail]
    · exact ⟨rfl, rfl⟩
    · exact hrest
  · rw [closestRing, if_neg (Ne.symm h)]
    dsimp only
    rw [if_pos (fseqGap_le _ _)]
    split_ifs
    · exact ⟨rfl, rfl⟩
    · rw [closestRing_of_tail _ _ _ hrest]
      exact ⟨rfl, rfl⟩

/-- After an activation, the first packet of the first wakeup has nothing missed before it. -/
theorem callsFrom_baseFseq {done rest : List Slot} (ok : (rings 0).Ok)
    (holds : (rings 0).Holds (task.heads 0)) (ne : task.heads 0 ≠ (rings 0).tail)
    (h : done ++ rest = task.unread rings 0) (hdone : done ≠ []) :
    callsFrom (task.baseFseq rings) done = task.callsSince done := by
  unfold baseFseq callsSince
  split_ifs with hact
  · rw [unread, Ring.between_cons ok holds ne] at h
    cases done with
    | nil => exact absurd rfl hdone
    | cons p ps =>
      obtain ⟨rfl, -⟩ := List.cons.inj h
      rw [callsFrom, firstCalls, fseqGap_pred]
  · rfl

/-- What a wakeup makes of the unread packets, unless the loop ends or the task sleeps: all are
handled. -/
structure Processed (rings : Fin (n + 1) → Ring) (task task' : Task (n + 1) δ) (calls : List Call)
    (done rest : List Slot) : Prop where
  handled : done ++ rest = task.unread rings 0
  calls : calls = task.callsSince done
  all : task'.active = true → task'.error = false →
    rest = [] ∧ task'.heads 0 = (rings 0).tail ∧
      ((done = [] ∧ task'.justActivated = task.justActivated ∧ task'.prevFseq = task.prevFseq) ∨
        (done ≠ [] ∧ task'.justActivated = false ∧
          task'.prevFseq = lastFseq (task.baseFseq rings) done))

theorem process_of_tail {readersOk : Bool} {len fuel : ℕ} {calls : List Call}
    (h : process hooks rings readersOk len fuel task = some (task', calls))
    (only : task.OnlyFirst rings) (tail : task.heads 0 = (rings 0).tail) :
    task' = task ∧ calls = [] := by
  obtain ⟨hnone, hsame⟩ := nextRing_of_tail only tail
  cases fuel with
  | zero => cases h
  | succ fuel =>
    rcases process_cases h with ⟨-, rfl, rfl⟩ | ⟨r, rc, task₁, calls₁, hsome, -⟩
    · exact ⟨hsame, rfl⟩
    · cases hnone.symm.trans hsome

theorem process_only {len fuel : ℕ} {calls : List Call} (ok : ∀ r, (rings r).Ok)
    (h : process hooks rings true len fuel task = some (task', calls)) (holds : task.Holds rings)
    (only : task.OnlyFirst rings) : ∃ done rest, Processed rings task task' calls done rest := by
  by_cases hne : task.heads 0 = (rings 0).tail
  · obtain ⟨rfl, rfl⟩ := process_of_tail h only hne
    refine ⟨[], [], ?_, ?_, fun _ _ => ⟨rfl, hne, Or.inl ⟨rfl, rfl, rfl⟩⟩⟩
    · rw [unread, hne, Ring.between_self, List.append_nil]
    · unfold callsSince
      split_ifs <;> rfl
  · obtain ⟨hzero, hbase⟩ := nextRing_of_ne only hne
    cases fuel with
    | zero => cases h
    | succ fuel =>
      rcases process_cases h with ⟨hnone, -⟩ | ⟨r, rc, task₁, calls₁, hsome, hd, hrc⟩
      · cases hzero.symm.trans hnone
      obtain rfl := Option.some.inj (hzero.symm.trans hsome)
      rw [hbase] at hd
      have disp := dispatch_spec (ok 0) hd (holds 0)
      obtain ⟨done, rest, happ, hcalls, hprev, hdone, hall⟩ := disp.handled
      have hcalls' : calls₁ = task.callsSince done := by
        rw [hcalls]
        exact callsFrom_baseFseq (ok 0) (holds 0) hne happ (hdone hne)
      rcases hrc with ⟨rfl, rfl, rfl⟩ | ⟨rfl, rfl, rfl⟩ | ⟨rfl, more, rfl, hmore⟩
      · -- the task sleeps
        exact ⟨done, rest, happ, hcalls', Bool.noConfusion⟩
      · -- the loop ends
        exact ⟨done, rest, happ, hcalls', fun _ => Bool.noConfusion⟩
      · obtain ⟨hrest, htail⟩ := hall rfl
        have only₁ : ({ task₁ with justActivated := false } : Task (n + 1) δ).OnlyFirst rings :=
          fun r hr => (disp.heads r hr).trans (only r hr)
        obtain ⟨rfl, rfl⟩ := process_of_tail hmore only₁ htail
        refine ⟨done, rest, happ, ?_, fun _ _ => ⟨hrest, htail, Or.inr ⟨hdone hne, rfl, hprev⟩⟩⟩
        rw [List.append_nil]
        exact hcalls'

/-- A call of the wakeup handler on an active task is a stop, or a wakeup. -/
theorem sigHn_only {fuel : ℕ} {sig : Signal} {rc : ℤ} {calls : List Call} (ok : ∀ r, (rings r).Ok)
    (h : task.sigHn hooks rings true fuel sig = some (rc, task', calls))
    (active : task.active = true) (holds : task.Holds rings) (only : task.OnlyFirst rings) :
    (calls = [] ∧ rc = -1) ∨
      ((rc ≠ -1 → task'.error = false) ∧
        ∃ done rest, Processed rings task task' calls done rest) := by
  unfold sigHn at h
  dsimp only at h
  split_ifs at h with hstop hidle
  · cases h
    exact Or.inl ⟨rfl, rfl⟩
  · cases active.symm.trans hidle
  · cases hp : process hooks rings true fuel fuel { task with busy := true } with
    | none =>
      rw [hp] at h
      cases h
    | some res =>
      obtain ⟨task₁, calls₁⟩ := res
      rw [hp] at h
      cases h
      obtain ⟨done, rest, hproc⟩ := process_only ok hp holds only
      refine Or.inr ⟨fun hrc => ?_, done, rest, hproc.handled, hproc.calls, hproc.all⟩
      by_contra herr
      rw [Bool.not_eq_false] at herr
      exact hrc (if_pos herr)

theorem sigHn_of_inactive {readersOk : Bool} {fuel : ℕ} {sig : Signal} {rc : ℤ}
    {calls : List Call} (h : task.sigHn hooks rings readersOk fuel sig = some (rc, task', calls))
    (idle : task.active = false) : calls = [] ∧ task'.active = false := by
  unfold sigHn at h
  dsimp only at h
  split_ifs at h
  all_goals cases h
  · exact ⟨rfl, idle⟩
  · exact ⟨rfl, idle⟩

/-! ## One wakeup after another -/

/-- The task has handled these packets since its activation. -/
def Follows (task : Task (n + 1) δ) (done : List Slot) : Prop :=
  (done = [] ∧ task.justActivated = true) ∨
    (done ≠ [] ∧ task.justActivated = false ∧ task.prevFseq = lastFseq 0 done)

theorem firstCalls_append {done : List Slot} (follows : task.Follows done) (more : List Slot) :
    firstCalls (done ++ more) = firstCalls done ++ task.callsSince more := by
  unfold callsSince
  rcases follows with ⟨rfl, hact⟩ | ⟨hne, hact, hprev⟩
  · rw [if_pos hact]
    rfl
  · rw [if_neg (by simp [hact]), hprev]
    cases done with
    | nil => exact absurd rfl hne
    | cons p ps =>
      rw [List.cons_append, firstCalls, callsFrom_append, firstCalls, lastFseq, List.cons_append]

/-- A last packet leaves no trace of what came before it. -/
theorem lastFseq_of_ne {ps : List Slot} (ne : ps ≠ []) (a b : ℕ) : lastFseq a ps = lastFseq b ps := by
  cases ps with
  | nil => exact absurd rfl ne
  | cons p ps => rfl

theorem follows_of_processed {calls : List Call} {done more rest : List Slot}
    (follows : task.Follows done) (h : Processed rings task task' calls more rest)
    (active : task'.active = true) (error : task'.error = false) :
    task'.Follows (done ++ more) := by
  obtain ⟨-, -, ⟨rfl, hact, hprev⟩ | ⟨hne, hact, hprev⟩⟩ := h.all active error
  · rw [List.append_nil, Follows, hact, hprev]
    exact follows
  · refine Or.inr ⟨by simp [hne], hact, ?_⟩
    rw [hprev, lastFseq_append]
    exact lastFseq_of_ne hne _ _

end Task

/-! ## The system -/

namespace Sys

variable {n nt : ℕ} {δ : Type}

/-- Only ring 0 receives packets, and tasks read them in `s_sig_hn`. -/
def OnRing0 (a : Action (n + 1) nt δ) : Prop :=
  match a with
  | .deliver r _ => r = 0
  | .advance _ _ => False
  | _ => True

/-- The other rings are empty. -/
structure Quiet (s : Sys (n + 1) nt δ) : Prop where
  ok : s.Ok
  empty : ∀ r, r ≠ 0 → (s.rings r).queue = []

variable {s s' : Sys (n + 1) nt δ} {t : Fin nt} {hooks : Fin nt → Hooks (n + 1) δ} {fuel : ℕ}
  {a : Action (n + 1) nt δ}

/-- An active task has read the other rings. -/
theorem onlyFirst_of_quiet (quiet : s.Quiet) (active : (s.tasks t).active = true) :
    (s.tasks t).OnlyFirst s.rings := by
  intro r hr
  have holds := quiet.ok.heads t active r
  have hle := holds.le
  have hzero : (s.rings r).pending = 0 := by
    have := congrArg List.length (quiet.empty r hr)
    rwa [Ring.queue, Ring.length_between] at this
  rw [hzero] at hle
  have hok := quiet.ok.rings r
  exact ((Circular.dist_eq_zero hok.head).1 (Nat.le_zero.1 hle)).symm.trans
    ((Circular.dist_eq_zero hok.head).1 hzero)

theorem quiet_step (quiet : s.Quiet) (ring0 : OnRing0 a) (h : step hooks fuel a s = some s') :
    s'.Quiet := by
  have hstep := stepped quiet.ok h
  refine ⟨hstep.ok, fun r hr => ?_⟩
  have hnone : delivered r a s = [] := by
    cases a with
    | deliver q pkt =>
      obtain rfl : q = 0 := ring0
      exact if_neg (Ne.symm hr)
    | advance | request | activate | deactivate | sigHn | newPkts => rfl
  have hqueue := hstep.queue r
  rw [quiet.empty r hr, hnone, List.append_nil] at hqueue
  exact (List.append_eq_nil_iff.1 hqueue).2

/-- The calls of a task's packet handler in an action. -/
def handled (hooks : Fin nt → Hooks (n + 1) δ) (fuel : ℕ) (t : Fin nt)
    (a : Action (n + 1) nt δ) (s : Sys (n + 1) nt δ) : List Call :=
  match a with
  | .sigHn u sig readersOk =>
    if u = t ∧ s.ended t = false then
      match (s.tasks t).sigHn (hooks t) s.rings readersOk fuel sig with
      | none => []
      | some (_, _, calls) => calls
    else []
  | _ => []

/-- The calls since the activation are those for the first of the packets, and an active task whose
loop runs has the others still to read. -/
structure History (t : Fin nt) (start : List Slot) (calls : List Call) (inp : List Slot)
    (s : Sys (n + 1) nt δ) : Prop where
  quiet : s.Quiet
  split : ∃ done rest, done ++ rest = start ++ inp ∧ calls = firstCalls done ∧
    ((s.tasks t).active = true → s.ended t = false →
      rest = (s.tasks t).unread s.rings 0 ∧ (s.tasks t).Follows done)

/-- An action in which the task handles no packet. -/
theorem history_of_frame {start inp : List Slot} {calls : List Call} (more : List Slot)
    (hist : History t start calls inp s) (quiet : s'.Quiet)
    (frame : (s'.tasks t).active = true → s'.ended t = false →
      (s.tasks t).active = true ∧ s.ended t = false ∧
        (s'.tasks t).unread s'.rings 0 = (s.tasks t).unread s.rings 0 ++ more ∧
        (s'.tasks t).justActivated = (s.tasks t).justActivated ∧
        (s'.tasks t).prevFseq = (s.tasks t).prevFseq) :
    History t start calls (inp ++ more) s' := by
  obtain ⟨done, rest, happ, hcalls, hopen⟩ := hist.split
  refine ⟨quiet, done, rest ++ more, ?_, hcalls, fun hact hend => ?_⟩
  · rw [← List.append_assoc, happ, List.append_assoc]
  · obtain ⟨hact₀, hend₀, hunread, hjust, hprev⟩ := frame hact hend
    obtain ⟨hrest, hfollows⟩ := hopen hact₀ hend₀
    refine ⟨by rw [hunread, hrest], ?_⟩
    rw [Task.Follows, hjust, hprev]
    exact hfollows

/-- The task is not activated again, and no deactivation in its wakeup handler fails. -/
def Session (t : Fin nt) (a : Action (n + 1) nt δ) : Prop :=
  OnRing0 a ∧
    match a with
    | .activate u => u ≠ t
    | .sigHn u _ readersOk => u = t → readersOk = true
    | _ => True

theorem history_deliver {start inp : List Slot} {calls : List Call} {pkt : Slot} {ring : Ring}
    (hist : History t start calls inp s) (quiet : (s.setRing 0 ring).Quiet)
    (h : (s.rings 0).deliver pkt = some ring) :
    History t start calls (inp ++ [pkt]) (s.setRing 0 ring) := by
  refine history_of_frame [pkt] hist quiet fun hact hend => ⟨hact, hend, ?_, rfl, rfl⟩
  have ok := hist.quiet.ok
  obtain ⟨-, heq⟩ := Ring.deliver_eq h
  rw [Task.unread, setRing_self]
  exact Ring.between_deliver (ok.rings 0) h (ok.heads t hact 0)

theorem history_release {start inp : List Slot} {calls : List Call}
    (hist : History t start calls inp s) (quiet : s'.Quiet) (h : Released s s') :
    History t start calls (inp ++ []) s' := by
  refine history_of_frame [] hist quiet fun hact hend => ?_
  rw [h.tasks] at hact
  rw [h.ended] at hend
  rw [h.tasks]
  refine ⟨hact, hend, ?_, rfl, rfl⟩
  obtain ⟨newHead, -, hrel⟩ := h.rings 0
  rw [Task.unread, Task.unread, Ring.between, Ring.between, hrel.numSlots, hrel.tail, hrel.slot,
    List.append_nil]

/-- A wakeup of the task itself. -/
theorem history_sigHn {start inp : List Slot} {calls more : List Call} {sig : Signal} {rc : ℤ}
    {task : Task (n + 1) δ} (hist : History t start calls inp s) (running : s.ended t = false)
    (quiet : ((s.setTask t task).setEnded t rc).Quiet)
    (h : (s.tasks t).sigHn (hooks t) s.rings true fuel sig = some (rc, task, more)) :
    History t start (calls ++ more) (inp ++ []) ((s.setTask t task).setEnded t rc) := by
  cases active : (s.tasks t).active with
  | false =>
    obtain ⟨rfl, hidle⟩ := Task.sigHn_of_inactive h active
    rw [List.append_nil]
    refine history_of_frame [] hist quiet fun hact => ?_
    rw [setEnded, setTask_self] at hact
    cases hidle.symm.trans hact
  | true =>
    have holds := hist.quiet.ok.heads t active
    rcases Task.sigHn_only hist.quiet.ok.rings h active holds (onlyFirst_of_quiet hist.quiet active)
      with ⟨rfl, rfl⟩ | ⟨herr, done₁, rest₁, hproc⟩
    · rw [List.append_nil]
      refine history_of_frame [] hist quiet fun _ hend => ?_
      rw [setEnded_self] at hend
      cases hend
    · obtain ⟨done, rest, happ, hcalls, hopen⟩ := hist.split
      obtain ⟨rfl, hfollows⟩ := hopen active running
      refine ⟨quiet, done ++ done₁, rest₁, ?_, ?_, fun hact hend => ?_⟩
      · rw [List.append_assoc, hproc.handled, happ, List.append_nil]
      · rw [Task.firstCalls_append hfollows, hcalls, hproc.calls]
      · rw [setEnded, setTask_self] at hact ⊢
        rw [setEnded_self, decide_eq_false_iff_not] at hend
        obtain ⟨hrest, htail, -⟩ := hproc.all hact (herr hend)
        refine ⟨?_, Task.follows_of_processed hfollows hproc hact (herr hend)⟩
        rw [hrest, Task.unread, htail]
        exact (Ring.between_self _).symm

theorem history_step {start : List Slot} (calls : List Call) (inp : List Slot)
    (a : Action (n + 1) nt δ) (s s' : Sys (n + 1) nt δ) (hist : History t start calls inp s)
    (session : Session t a) (h : step hooks fuel a s = some s') :
    History t start (calls ++ handled hooks fuel t a s) (inp ++ delivered 0 a s) s' := by
  have quiet := quiet_step hist.quiet session.1 h
  obtain ⟨ring0, only⟩ := session
  cases a with
  | deliver r pkt =>
    obtain rfl : r = 0 := ring0
    obtain ⟨ring, hring, rfl⟩ := Option.map_eq_some_iff.1 h
    rw [show handled hooks fuel t _ s = [] from rfl, List.append_nil]
    exact history_deliver hist quiet hring
  | advance u r => exact ring0.elim
  | request u data =>
    cases h
    rw [show handled hooks fuel t _ s = [] from rfl, List.append_nil]
    refine history_of_frame [] hist quiet fun hact hend => ?_
    rw [List.append_nil]
    by_cases hut : t = u
    · subst hut
      rw [setTask_self] at hact ⊢
      exact ⟨hact, hend, rfl, rfl, rfl⟩
    · rw [setTask_of_ne _ hut] at hact ⊢
      exact ⟨hact, hend, rfl, rfl, rfl⟩
  | activate u =>
    rw [step] at h
    split_ifs at h
    cases h
    rw [show handled hooks fuel t _ s = [] from rfl, List.append_nil]
    refine history_of_frame [] hist quiet fun hact hend => ?_
    rw [List.append_nil]
    rw [setTask_of_ne _ (Ne.symm only)] at hact ⊢
    exact ⟨hact, hend, rfl, rfl, rfl⟩
  | deactivate u readersOk =>
    cases h
    rw [show handled hooks fuel t _ s = [] from rfl, List.append_nil]
    refine history_of_frame [] hist quiet fun hact hend => ?_
    rw [List.append_nil]
    by_cases hut : t = u
    · subst hut
      rw [setTask_self, Task.deactivate_eq] at hact ⊢
      exact ⟨(Bool.and_eq_true_iff.1 hact).1, hend, rfl, rfl, rfl⟩
    · rw [setTask_of_ne _ hut] at hact ⊢
      exact ⟨hact, hend, rfl, rfl, rfl⟩
  | sigHn u sig readersOk =>
    rw [step] at h
    split_ifs at h with hended
    rw [Bool.not_eq_true] at hended
    obtain ⟨⟨rc, task, more⟩, hsig, rfl⟩ := Option.map_eq_some_iff.1 h
    dsimp only at quiet ⊢
    by_cases hut : u = t
    · subst hut
      obtain rfl : readersOk = true := only rfl
      rw [handled, if_pos ⟨rfl, hended⟩, hsig]
      exact history_sigHn hist hended quiet hsig
    · rw [handled, if_neg (fun he => hut he.1), List.append_nil]
      refine history_of_frame [] hist quiet fun hact hend => ?_
      rw [setEnded_of_ne _ (Ne.symm hut)] at hend
      rw [setEnded, setTask_of_ne _ (Ne.symm hut)] at hact ⊢
      rw [List.append_nil]
      exact ⟨hact, hend, rfl, rfl, rfl⟩
  | newPkts signalled =>
    cases h
    rw [show handled hooks fuel t _ s = [] from rfl, List.append_nil]
    cases signalled with
    | false =>
      rw [show delivered 0 (.newPkts false) s = [] from rfl, List.append_nil]
      exact hist
    | true => exact history_release hist quiet (newPktsHn_spec hist.quiet.ok)

/-! ## Every run -/

/-- A task that a wakeup leaves active has no packet left. -/
theorem unread_of_sigHn {sig : Signal} (quiet : s.Quiet)
    (h : step hooks fuel (.sigHn t sig true) s = some s') (active : (s'.tasks t).active = true)
    (running : s'.ended t = false) : (s'.tasks t).unread s'.rings 0 = [] := by
  rw [step] at h
  split_ifs at h
  obtain ⟨⟨rc, task, calls⟩, hsig, rfl⟩ := Option.map_eq_some_iff.1 h
  dsimp only at active running ⊢
  rw [setEnded_self, decide_eq_false_iff_not] at running
  rw [setEnded, setTask_self] at active ⊢
  cases hact : (s.tasks t).active with
  | false => cases (Task.sigHn_of_inactive hsig hact).2.symm.trans active
  | true =>
    rcases Task.sigHn_only quiet.ok.rings hsig hact (quiet.ok.heads t hact)
      (onlyFirst_of_quiet quiet hact) with ⟨-, rfl⟩ | ⟨herr, done, rest, hproc⟩
    · exact absurd rfl running
    · rw [Task.unread, (hproc.all active (herr running)).2.1]
      exact Ring.between_self _

theorem quiet_run {acts : List (Action (n + 1) nt δ)} (quiet : s.Quiet)
    (ring0 : ∀ a ∈ acts, OnRing0 a) (h : Runs.run (step hooks fuel) acts s = some s') : s'.Quiet :=
  Runs.invariant_of_along (p := fun a _ => OnRing0 a)
    (fun _ _ _ hq ha hstep => quiet_step hq ha hstep) quiet
    (Runs.along_of_forall (fun a ha _ => ring0 a ha) s) h

theorem history_of_activate (quiet : s.Quiet) (h : step hooks fuel (.activate t) s = some s') :
    History t (s.rings 0).queue [] [] s' := by
  have quiet' : s'.Quiet := by
    refine quiet_step quiet ?_ h
    trivial
  rw [step] at h
  split_ifs at h with hidle
  cases h
  refine ⟨quiet', [], (s.rings 0).queue, (List.append_nil _).symm, rfl, fun hact _ => ?_⟩
  rw [setTask_self] at hact ⊢
  obtain ⟨hheads, hjust⟩ := Task.activate_spec hidle hact
  refine ⟨?_, Or.inl ⟨rfl, hjust⟩⟩
  rw [Task.unread, hheads]
  rfl

theorem history_run {start : List Slot} {acts : List (Action (n + 1) nt δ)}
    (hist : History t start [] [] s) (session : ∀ a ∈ acts, Session t a)
    (h : Runs.run (step hooks fuel) acts s = some s') :
    History t start (Runs.collect (step hooks fuel) (handled hooks fuel t) acts s)
      (Runs.collect (step hooks fuel) (delivered 0) acts s) s' :=
  Runs.history_of_along (p := fun a _ => Session t a) history_step hist
    (Runs.along_of_forall (fun a ha _ => session a ha) s) h

/-- From an activation to the following deactivation, a task handles the first of the packets
delivered from the ring's head on, in order and each once, and after a wakeup that leaves it active
all of them. -/
theorem delivered_once_in_order (hooks : Fin nt → Hooks (n + 1) δ) (fuel : ℕ)
    {before during : List (Action (n + 1) nt δ)} {s s₁ s₂ s₃ : Sys (n + 1) nt δ} (t : Fin nt)
    (rings : ∀ r, (s.rings r).Ok) (idle : ∀ u, (s.tasks u).active = false)
    (empty : ∀ r, r ≠ 0 → (s.rings r).tail = (s.rings r).head)
    (ring0 : ∀ a ∈ before, OnRing0 a) (h₁ : Runs.run (step hooks fuel) before s = some s₁)
    (h₂ : step hooks fuel (.activate t) s₁ = some s₂)
    (session : ∀ a ∈ during, Session t a)
    (h₃ : Runs.run (step hooks fuel) during s₂ = some s₃) :
    (∃ done rest, done ++ rest = (s₁.rings 0).queue ++
          Runs.collect (step hooks fuel) (delivered 0) during s₂ ∧
        Runs.collect (step hooks fuel) (handled hooks fuel t) during s₂ = firstCalls done ∧
        ∀ pre sig readersOk, during = pre ++ [.sigHn t sig readersOk] →
          (s₃.tasks t).active = true → s₃.ended t = false → rest = []) ∧
      ∀ sig readersOk, s₃.ended t = false → (∀ r, (s₃.rings r).numSlots ≤ fuel) → n + 1 < fuel →
        (step hooks fuel (.sigHn t sig readersOk) s₃).isSome := by
  have quiet : s.Quiet := by
    refine ⟨⟨rings, fun u hu => nomatch (idle u).symm.trans hu⟩, fun r hr => ?_⟩
    rw [Ring.queue, empty r hr, Ring.between_self]
  have hist := history_run (history_of_activate (quiet_run quiet ring0 h₁) h₂) session h₃
  refine ⟨?_, fun sig readersOk running enough hfuel => ?_⟩
  · obtain ⟨done, rest, happ, hcalls, hopen⟩ := hist.split
    refine ⟨done, rest, happ, hcalls, ?_⟩
    rintro pre sig readersOk rfl active running
    have hlast : Session t (.sigHn t sig readersOk) := session _ (by simp)
    obtain rfl : readersOk = true := hlast.2 rfl
    obtain ⟨s', hpre, hsig⟩ := Runs.run_concat h₃
    have hist' := history_run (history_of_activate (quiet_run quiet ring0 h₁) h₂)
      (fun a ha => session a (List.mem_append_left _ ha)) hpre
    rw [(hopen active running).1]
    exact unread_of_sigHn hist'.quiet hsig active running
  · have ok := hist.quiet.ok
    rw [step, if_neg (by simp [running]), Option.isSome_map]
    exact Task.sigHn_isSome ok.rings enough hfuel (ok.heads t)

/-- Two wakeups with a release between them; a packet is missing before the last one. -/
def sampleSession : List (Action 1 1 Unit) :=
  [.deliver sole (samplePkt 1), .deliver sole (samplePkt 2), .sigHn sole .wakeup true,
    .newPkts true, .deliver sole (samplePkt 4), .sigHn sole .wakeup true]

theorem session_sampleSession : ∀ a ∈ sampleSession, Session 0 a := by
  simp [sampleSession, sole, Session, OnRing0]

theorem delivered_once_in_order_sample : ∃ s₂ s₃,
    step (sampleHooks .zero) 10 (.activate 0) sample = some s₂ ∧
      Runs.run (step (sampleHooks .zero) 10) sampleSession s₂ = some s₃ ∧
      Runs.collect (step (sampleHooks .zero) 10) (handled (sampleHooks .zero) 10 0) sampleSession s₂ =
        [⟨samplePkt 1, 0⟩, ⟨samplePkt 2, 0⟩, ⟨samplePkt 4, 1⟩] := by
  obtain ⟨s₂, s₃, hact, hrun, hdel, active, running⟩ : ∃ s₂ s₃,
      step (sampleHooks .zero) 10 (.activate 0) sample = some s₂ ∧
        Runs.run (step (sampleHooks .zero) 10) sampleSession s₂ = some s₃ ∧
        Runs.collect (step (sampleHooks .zero) 10) (delivered 0) sampleSession s₂ =
          [samplePkt 1, samplePkt 2, samplePkt 4] ∧
        (s₃.tasks 0).active = true ∧ s₃.ended 0 = false := ⟨_, _, rfl, rfl, rfl, rfl, rfl⟩
  have hnil : ∀ a ∈ ([] : List (Action 1 1 Unit)), OnRing0 a := by simp
  obtain ⟨⟨done, rest, happ, hcalls, hall⟩, -⟩ := delivered_once_in_order (sampleHooks .zero) 10 0
    sample_ok (fun _ => rfl) (fun r hr => absurd (Fin.fin_one_eq_zero r) hr) hnil rfl hact
    session_sampleSession hrun
  obtain rfl := hall _ .wakeup true
    (List.dropLast_concat_getLast (List.cons_ne_nil _ _)).symm active running
  have hempty : (sample.rings 0).queue = [] := rfl
  rw [List.append_nil, hempty, List.nil_append, hdel] at happ
  rw [happ] at hcalls
  exact ⟨s₂, s₃, hact, hrun, hcalls⟩

/-- A packet handler that fails leaves the task active and packets unread. -/
theorem not_delivered_once_in_order :
    ¬ ∀ during s₂ s₃, step (sampleHooks .error) 10 (.activate 0) sample = some s₂ →
      (∀ a ∈ during, Session 0 a) →
      Runs.run (step (sampleHooks .error) 10) during s₂ = some s₃ →
      (∃ pre sig, during = pre ++ [.sigHn 0 sig true]) → (s₃.tasks 0).active = true →
      (Runs.collect (step (sampleHooks .error) 10) (handled (sampleHooks .error) 10 0) during
        s₂).map Call.slot =
      Runs.collect (step (sampleHooks .error) 10) (delivered 0) during s₂ := by
  intro h
  have hcalls := h ([.deliver 0 (samplePkt 1), .deliver 0 (samplePkt 2)] ++ [.sigHn 0 .wakeup true])
    _ _ rfl (by simp [Session, OnRing0]) rfl ⟨_, _, rfl⟩ rfl
  exact absurd (congrArg List.length hcalls) (by decide)

end Sys

end Tesd
