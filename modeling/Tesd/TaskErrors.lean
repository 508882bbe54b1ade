import Tesd.RingOrder

/-!
# Tasks that fail

`s_sig_hn` returns `-1` to end the loop of its task, which then signals `SIG_DIED` if `error` is set.
It does so when the packet handler has returned `TASK_ERROR`, but not when `task_deactivate` has.
-/

namespace Tesd

variable {nr : ℕ} {δ ε : Type}

namespace Task

/-- The task with its data seen through `f`. -/
def mapData (f : ε → δ) (task : Task nr ε) : Task nr δ where
  heads := task.heads
  prevFseq := task.prevFseq
  prevPseqMca := task.prevPseqMca
  prevPseqTr := task.prevPseqTr
  justActivated := task.justActivated
  error := task.error
  busy := task.busy
  active := task.active
  data := f task.data

/-- The task with an empty record. -/
def unrecorded (task : Task nr δ) : Task nr (δ × List TaskRc) := task.mapData fun data => (data, [])

/-- The task without its record. -/
abbrev forget (task : Task nr (δ × List TaskRc)) : Task nr δ := task.mapData Prod.fst

end Task

/-- The functions of the task, with a record of what the packet handler has returned. -/
def Hooks.recording (hooks : Hooks nr δ) : Hooks nr (δ × List TaskRc) where
  pktHandler task pkt flen missed err :=
    let (rc, data) := hooks.pktHandler task.forget pkt flen missed err
    (rc, data, task.data.2 ++ [rc])
  dataWakeup data :=
    let (ok, data') := hooks.dataWakeup data.1
    (ok, data', data.2)

namespace Task

/-- What the packet handler has returned in a call of `s_sig_hn`. -/
def returned (hooks : Hooks nr δ) (rings : Fin nr → Ring) (readersOk : Bool) (fuel : ℕ)
    (sig : Signal) (task : Task nr δ) : List TaskRc :=
  match task.unrecorded.sigHn hooks.recording rings readersOk fuel sig with
  | none => []
  | some (_, task, _) => task.data.2

/-- The end of `s_task_shim`: whether it signals `SIG_DIED`, once a handler has returned `-1`. -/
def signalsDied (rc : ℤ) (task : Task nr δ) : Bool := rc == -1 && task.error

/-- The packet handler has failed, or the deactivation after it. -/
def Failed (rcs : List TaskRc) (readersOk : Bool) : Prop :=
  .error ∈ rcs ∨ (.sleep ∈ rcs ∧ readersOk = false)

/-- A task that fails stops, and any other does not: what `s_sig_hn` has returned and left, after
the packet handler has returned these values. -/
structure StopsIfFailed (rcs : List TaskRc) (readersOk : Bool) (sig : Signal) (rc : ℤ)
    (task : Task nr δ) : Prop where
  returns : rc = -1 ∧ task.error = true ↔ Failed rcs readersOk
  dies : signalsDied rc task = true ↔ Failed rcs readersOk
  busy : ¬ Failed rcs readersOk → sig = .wakeup → task.busy = false
  sleeps : ¬ Failed rcs readersOk → .sleep ∈ rcs → task.active = false

variable {hooks : Hooks nr δ} {rings : Fin nr → Ring} {readersOk : Bool} {len fuel : ℕ}
  {sig : Signal}

/-! ## The record changes nothing -/

section Forget

variable (task : Task nr (δ × List TaskRc))

theorem firstRing_forget (l : List (Fin nr)) (next : Option (Fin nr)) :
    firstRing rings l next task.forget =
      ((firstRing rings l next task).1, (firstRing rings l next task).2.forget) := by
  induction l generalizing next task with
  | nil => rfl
  | cons r l ih =>
    rw [firstRing, firstRing]
    dsimp only
    have hheads : task.forget.heads = task.heads := rfl
    have hprev : task.forget.prevFseq = task.prevFseq := rfl
    rw [hheads, hprev]
    split_ifs
    · exact ih task next
    · exact ih { task with
        prevFseq := ((((rings r).slot (task.heads r)).pkt.fseq - 1 : ℤ) % 2 ^ 16).toNat } (some r)
    · exact ih task next

theorem closestRing_forget (l : List (Fin nr)) (missed : ℕ) (next : Option (Fin nr)) :
    closestRing rings task.forget l missed next = closestRing rings task l missed next := by
  induction l generalizing missed next with
  | nil => rfl
  | cons r l ih =>
    rw [closestRing, closestRing]
    dsimp only
    rw [ih, ih]
    rfl

theorem nextRing_forget :
    task.forget.nextRing rings = ((task.nextRing rings).1, (task.nextRing rings).2.forget) := by
  unfold nextRing
  have hjust : task.forget.justActivated = task.justActivated := rfl
  rw [hjust]
  split_ifs
  · dsimp only
    rw [firstRing_forget]
  · rw [closestRing_forget]

theorem dispatch_forget (r : Fin nr) :
    task.forget.dispatch hooks rings r fuel =
      (task.dispatch hooks.recording rings r fuel).map fun (rc, task, calls) =>
        (rc, task.forget, calls) := by
  induction fuel generalizing task with
  | zero => rfl
  | succ fuel ih =>
    by_cases ne : task.heads r = (rings r).tail
    · have ne' : task.forget.heads r = (rings r).tail := ne
      rw [dispatch_of_tail fuel ne, dispatch_of_tail fuel ne']
      rfl
    · have ne' : task.forget.heads r ≠ (rings r).tail := ne
      rw [dispatch_of_ne fuel ne, dispatch_of_ne fuel ne']
      dsimp only
      have hrc : (task.forget.handle hooks rings r).1 = (task.handle hooks.recording rings r).1 :=
        rfl
      have hlook : (task.forget.look hooks rings r).advance rings r =
          ((task.look hooks.recording rings r).advance rings r).forget := rfl
      rw [hrc, hlook, ih]
      split_ifs
      · rfl
      · rw [Option.map_map, Option.map_map]
        rfl

theorem process_forget :
    process hooks rings readersOk len fuel task.forget =
      (process hooks.recording rings readersOk len fuel task).map fun (task, calls) =>
        (task.forget, calls) := by
  induction fuel generalizing task with
  | zero => rfl
  | succ fuel ih =>
    rw [process, process, nextRing_forget]
    generalize task.nextRing rings = n
    obtain ⟨⟨next, missed⟩, task₀⟩ := n
    cases next with
    | none => rfl
    | some r =>
      dsimp only
      rw [dispatch_forget]
      cases task₀.dispatch hooks.recording rings r len with
      | none => rfl
      | some res =>
        obtain ⟨rc, task₁, calls⟩ := res
        cases rc with
        | sleep => cases readersOk <;> rfl
        | error => rfl
        | zero =>
          have hrest := ih { task₁ with justActivated := false }
          change Option.map _ (process hooks rings readersOk len fuel
            ({ task₁ with justActivated := false } : Task nr (δ × List TaskRc)).forget) = _
          rw [hrest, Option.map_map]
          change _ = Option.map _ (Option.map _ _)
          rw [Option.map_map]
          rfl

/-- Whether there is a record or not, `s_sig_hn` does the same. -/
theorem sigHn_forget :
    task.forget.sigHn hooks rings readersOk fuel sig =
      (task.sigHn hooks.recording rings readersOk fuel sig).map fun (rc, task, calls) =>
        (rc, task.forget, calls) := by
  unfold sigHn
  dsimp only
  by_cases hstop : sig = .stop
  · rw [if_pos hstop, if_pos hstop]
    rfl
  · by_cases hidle : task.active = false
    · have hidle' : task.forget.active = false := hidle
      rw [if_neg hstop, if_neg hstop, if_pos hidle, if_pos hidle']
      rfl
    · have hidle' : ¬ task.forget.active = false := hidle
      have hprocess : process hooks rings readersOk fuel fuel { task.forget with busy := true } =
          (process hooks.recording rings readersOk fuel fuel { task with busy := true }).map
            fun (task, calls) => (task.forget, calls) := process_forget { task with busy := true }
      dsimp only at hprocess
      rw [if_neg hstop, if_neg hstop, if_neg hidle, if_neg hidle', hprocess]
      cases process hooks.recording rings readersOk fuel fuel { task with busy := true } with
      | none => rfl
      | some res => rfl

end Forget

/-! ## What a call returns -/

/-- What is known of a task after packets for which the packet handler returned `0`, but for the last
one, for which it returned `rc`. -/
structure Recorded (task : Task nr (δ × List TaskRc)) (rc : TaskRc)
    (task' : Task nr (δ × List TaskRc)) : Prop where
  rcs : ∀ rc', rc' ≠ .zero → (rc' ∈ task'.data.2 ↔ rc' ∈ task.data.2 ∨ rc' = rc)
  busy : task'.busy = task.busy
  active : task'.active = task.active
  error : task'.error = task.error

/-- Every head of the task is a slot of its ring. -/
def OnRings (rings : Fin nr → Ring) (task : Task nr ε) : Prop :=
  ∀ r, task.heads r < (rings r).numSlots

variable {task : Task nr (δ × List TaskRc)}

theorem handle_recording (r : Fin nr) :
    (task.look hooks.recording rings r).data.2 =
      task.data.2 ++ [(task.handle hooks.recording rings r).1] := rfl

theorem dispatch_recording (hooks : Hooks nr δ) (task : Task nr (δ × List TaskRc)) {r : Fin nr}
    (ok : (rings r).Ok)
    (lt : task.heads r < (rings r).numSlots)
    (enough : Circular.dist (rings r).numSlots (task.heads r) (rings r).tail < fuel) :
    ∃ rc task' calls, task.dispatch hooks.recording rings r fuel = some (rc, task', calls) ∧
      Recorded task rc task' ∧ task'.heads r < (rings r).numSlots ∧
      (∀ q, q ≠ r → task'.heads q = task.heads q) ∧
      (rc = .zero → task'.heads r = (rings r).tail) := by
  induction fuel generalizing task with
  | zero => exact absurd enough (Nat.not_lt_zero _)
  | succ fuel ih =>
    by_cases ne : task.heads r = (rings r).tail
    · refine ⟨.zero, task, [], dispatch_of_tail fuel ne, ⟨fun rc' hne => ?_, rfl, rfl, rfl⟩, lt,
        fun _ _ => rfl, fun _ => ne⟩
      simp [hne]
    · rw [dispatch_of_ne fuel ne]
      dsimp only
      split_ifs with hrc
      · refine ⟨_, _, _, rfl, ⟨fun rc' _ => ?_, rfl, rfl, rfl⟩, lt, fun _ _ => rfl,
          fun hz => absurd hz hrc⟩
        rw [handle_recording, List.mem_append, List.mem_singleton]
      · rw [ne_eq, not_not] at hrc
        have hlt : ((task.look hooks.recording rings r).advance rings r).heads r <
            (rings r).numSlots := by
          rw [advance]
          dsimp only
          rw [Function.update_self]
          exact Circular.next_lt lt
        have hstep := Circular.dist_from_next lt ok.tail ne
        have hdist : Circular.dist (rings r).numSlots
            (((task.look hooks.recording rings r).advance rings r).heads r) (rings r).tail < fuel := by
          rw [advance]
          dsimp only
          rw [Function.update_self]
          change Circular.dist _ (Circular.next _ (task.heads r)) _ < fuel
          omega
        obtain ⟨rc, task', calls, hd, hrec, hlt', hheads, htail⟩ := ih _ hlt hdist
        refine ⟨rc, task', _, by rw [hd]; rfl, ⟨fun rc' hne => ?_, hrec.busy, hrec.active,
          hrec.error⟩, hlt', fun q hq => (hheads q hq).trans (Function.update_of_ne hq _ _), htail⟩
        rw [hrec.rcs rc' hne]
        change rc' ∈ (task.look hooks.recording rings r).data.2 ∨ rc' = rc ↔ _
        rw [handle_recording, hrc, List.mem_append, List.mem_singleton]
        simp [hne]

theorem Recorded.trans {task₁ task₂ : Task nr (δ × List TaskRc)} {rc : TaskRc}
    (h₁ : Recorded task .zero task₁) (h₂ : Recorded task₁ rc task₂) : Recorded task rc task₂ := by
  refine ⟨fun rc' hne => ?_, h₂.busy.trans h₁.busy, h₂.active.trans h₁.active,
    h₂.error.trans h₁.error⟩
  rw [h₂.rcs rc' hne, h₁.rcs rc' hne]
  simp [hne]

/-- What the loop of `s_sig_hn` makes of the last return value of the packet handler. -/
def conclude (readersOk : Bool) (rc : TaskRc) (task : Task nr ε) : Task nr ε :=
  match rc with
  | .zero => task
  | .sleep => (task.deactivate readersOk).2
  | .error => { task with error := true }

theorem process_recording (hooks : Hooks nr δ) (readersOk : Bool)
    (task : Task nr (δ × List TaskRc)) (ok : ∀ r, (rings r).Ok) (onRings : task.OnRings rings)
    (enough : ∀ r, (rings r).numSlots ≤ len) (hfuel : (task.behind rings).card < fuel) :
    ∃ rc task₁ calls, process hooks.recording rings readersOk len fuel task =
      some (task₁.conclude readersOk rc, calls) ∧ Recorded task rc task₁ := by
  induction fuel generalizing task with
  | zero => exact absurd hfuel (Nat.not_lt_zero _)
  | succ fuel ih =>
    obtain ⟨⟨prev, hprev⟩, hnext⟩ := nextRing_spec rings task
    rw [process]
    generalize task.nextRing rings = n at hprev hnext ⊢
    obtain ⟨⟨next, missed⟩, task₀⟩ := n
    obtain rfl : task₀ = { task with prevFseq := prev } := hprev
    cases next with
    | none => exact ⟨.zero, _, _, rfl, fun rc' hne => by simp [hne], rfl, rfl, rfl⟩
    | some r =>
      have hlt := Nat.lt_of_lt_of_le (Circular.dist_lt (onRings r) (ok r).tail) (enough r)
      obtain ⟨rc, task₁, calls, hd, hrec, hlt₁, hheads, htail⟩ :=
        dispatch_recording hooks { task with prevFseq := prev } (ok r) (onRings r) hlt
      have hrec₁ : Recorded task rc { task₁ with justActivated := false } :=
        ⟨hrec.rcs, hrec.busy, hrec.active, hrec.error⟩
      dsimp only
      rw [hd]
      cases rc with
      | sleep => exact ⟨.sleep, _, calls, rfl, hrec₁⟩
      | error => exact ⟨.error, _, calls, rfl, hrec₁⟩
      | zero =>
        have onRings₁ : ({ task₁ with justActivated := false } :
            Task nr (δ × List TaskRc)).OnRings rings := by
          intro q
          by_cases hq : q = r
          · rw [hq]
            exact hlt₁
          · exact (hheads q hq).symm ▸ onRings q
        have hcard : (({ task₁ with justActivated := false } :
            Task nr (δ × List TaskRc)).behind rings).card < (task.behind rings).card :=
          card_behind_lt hheads (htail rfl) (hnext r rfl)
        obtain ⟨rc, task₂, more, hp, hrec₂⟩ := ih _ onRings₁ (by omega)
        refine ⟨rc, task₂, calls ++ more, ?_, hrec₁.trans hrec₂⟩
        dsimp only
        rw [hp]
        rfl

/-! ## Whether the failure is reported -/

theorem conclude_spec (readersOk : Bool) (rc : TaskRc) (task : Task nr ε) :
    (task.conclude readersOk rc).error = (task.error || rc == .error) ∧
      (task.conclude readersOk rc).active = (task.active && !(rc == .sleep && readersOk)) := by
  cases rc with
  | zero => simp [conclude]
  | sleep => cases readersOk <;> simp [conclude, deactivate]
  | error => simp [conclude]

theorem conclude_data (readersOk : Bool) (rc : TaskRc) (task : Task nr ε) :
    (task.conclude readersOk rc).data = task.data := by
  cases rc with
  | zero => rfl
  | sleep => cases readersOk <;> rfl
  | error => rfl

/-- What `s_sig_hn` has returned and left if `rc` is the last value that the packet handler has
returned, or `0` if there was none. -/
structure Ends (readersOk : Bool) (sig : Signal) (rc : TaskRc) (ret : ℤ)
    (task' : Task nr (δ × List TaskRc)) : Prop where
  rcs : ∀ rc', rc' ≠ .zero → (rc' ∈ task'.data.2 ↔ rc' = rc)
  error : task'.error = (rc == .error)
  stop : sig = .stop → rc = .zero
  ret : sig = .wakeup → ret = if task'.error then -1 else 0
  busy : sig = .wakeup → task'.busy = false
  sleeps : rc = .sleep → task'.active = !readersOk

theorem sigHn_recording (hooks : Hooks nr δ) (readersOk : Bool) (sig : Signal)
    (task : Task nr (δ × List TaskRc)) (ok : ∀ r, (rings r).Ok) (onRings : task.OnRings rings)
    (enough : ∀ r, (rings r).numSlots ≤ fuel) (hfuel : nr < fuel) (error : task.error = false)
    (empty : task.data.2 = []) :
    ∃ rc ret task' calls, task.sigHn hooks.recording rings readersOk fuel sig =
      some (ret, task', calls) ∧ Ends readersOk sig rc ret task' := by
  unfold sigHn
  dsimp only
  have hnone : ∀ rc', rc' ≠ TaskRc.zero → (rc' ∈ task.data.2 ↔ rc' = .zero) := fun rc' hne => by
    simp [empty, hne]
  split_ifs with hstop hidle
  · exact ⟨.zero, _, _, _, rfl, hnone, error, fun _ => rfl, fun h => absurd (hstop ▸ h) (by decide),
      fun h => absurd (hstop ▸ h) (by decide), nofun⟩
  · exact ⟨.zero, _, _, _, rfl, hnone, error, fun _ => rfl, fun _ => by simp [error], fun _ => rfl,
      nofun⟩
  · have hcard : (({ task with busy := true } : Task nr (δ × List TaskRc)).behind rings).card <
        fuel := Nat.lt_of_le_of_lt (Finset.card_le_univ _) (by rwa [Fintype.card_fin])
    obtain ⟨rc, task₁, calls, hp, hrec⟩ := process_recording hooks readersOk
      { task with busy := true } ok onRings enough hcard
    obtain ⟨herror, hactive⟩ := conclude_spec readersOk rc task₁
    rw [hp]
    refine ⟨rc, _, _, calls, rfl, fun rc' hne => ?_, ?_, fun h => absurd h hstop, fun _ => rfl,
      fun _ => rfl, ?_⟩
    · dsimp only
      rw [conclude_data, hrec.rcs rc' hne, hnone rc' hne]
      simp [hne]
    · rw [herror, hrec.error]
      simp [error]
    · rintro rfl
      rw [hactive, hrec.active]
      simp [hidle]

theorem stopsIfFailed_of_ends {rc : TaskRc} {ret : ℤ} (ends : Ends readersOk sig rc ret task) :
    StopsIfFailed task.data.2 readersOk sig ret task.forget ↔
      ¬ (.sleep ∈ task.data.2 ∧ readersOk = false) := by
  have hsleep : .sleep ∈ task.data.2 ↔ rc = .sleep := (ends.rcs .sleep nofun).trans eq_comm
  have herror : .error ∈ task.data.2 ↔ rc = .error := (ends.rcs .error nofun).trans eq_comm
  have hset : task.forget.error = (rc == .error) := ends.error
  have hreturns : ret = -1 ∧ task.forget.error = true ↔ rc = .error := by
    rw [hset, beq_iff_eq]
    refine ⟨And.right, fun h => ⟨?_, h⟩⟩
    have hsig : sig = .wakeup := by
      cases sig with
      | wakeup => rfl
      | stop =>
        rw [h] at ends
        cases ends.stop rfl
    rw [ends.ret hsig, ends.error, h]
    rfl
  rw [hsleep]
  constructor
  · rintro stops ⟨rfl, hfails⟩
    have := hreturns.1 (stops.returns.2 (Or.inr ⟨hsleep.2 rfl, hfails⟩))
    cases this
  · intro hno
    have hfailed : Failed task.data.2 readersOk ↔ rc = .error := by
      unfold Failed
      rw [hsleep, herror]
      exact or_iff_left hno
    refine ⟨hreturns.trans hfailed.symm, ?_, fun _ => ends.busy, fun _ hs => ?_⟩
    · rw [hfailed, ← hreturns, signalsDied, Bool.and_eq_true, beq_iff_eq]
    · have hrc := hsleep.1 hs
      have hactive : task.forget.active = !readersOk := ends.sleeps hrc
      rw [hactive, Bool.not_eq_false']
      simpa [hrc] using hno

/-- A task that fails stops, and any other does not, if and only if the packet handler has not
returned `TASK_SLEEP` to a task that cannot be deactivated. -/
theorem stopsIfFailed_iff (hooks : Hooks nr δ) (rings : Fin nr → Ring) (readersOk : Bool) (fuel : ℕ)
    (sig : Signal) (task : Task nr δ) (ok : ∀ r, (rings r).Ok) (onRings : task.OnRings rings)
    (enough : ∀ r, (rings r).numSlots ≤ fuel) (hfuel : nr < fuel) (error : task.error = false) :
    ∃ rc task' calls, task.sigHn hooks rings readersOk fuel sig = some (rc, task', calls) ∧
      (StopsIfFailed (task.returned hooks rings readersOk fuel sig) readersOk sig rc task' ↔
        ¬ (.sleep ∈ task.returned hooks rings readersOk fuel sig ∧ readersOk = false)) := by
  obtain ⟨rc, ret, task', calls, hrun, ends⟩ := sigHn_recording hooks readersOk sig task.unrecorded
    ok onRings enough hfuel error rfl
  have hplain : task.sigHn hooks rings readersOk fuel sig = some (ret, task'.forget, calls) := by
    have h : task.unrecorded.forget.sigHn hooks rings readersOk fuel sig = _ :=
      sigHn_forget task.unrecorded
    rw [hrun] at h
    exact h
  have hreturned : task.returned hooks rings readersOk fuel sig = task'.data.2 := by
    rw [returned, hrun]
  refine ⟨ret, task'.forget, calls, hplain, ?_⟩
  rw [hreturned]
  exact stopsIfFailed_of_ends ends

/-! ## One packet -/

/-- A packet handler that always returns this value. -/
def always (rc : TaskRc) : Hooks 4 Unit := ⟨fun _ _ _ _ _ => (rc, ()), fun _ => (true, ())⟩

/-- One tick for a task whose packet handler fails. -/
theorem stopsIfFailed_iff_tick : ∃ rc task' calls,
    taskAt0.sigHn (always .error) (ringsWith [(0, tickAt 1)]) true 16 .wakeup =
      some (rc, task', calls) ∧
    (StopsIfFailed (taskAt0.returned (always .error) (ringsWith [(0, tickAt 1)]) true 16 .wakeup)
        true .wakeup rc task' ↔
      ¬ (.sleep ∈ taskAt0.returned (always .error) (ringsWith [(0, tickAt 1)]) true 16 .wakeup ∧
        true = false)) := by
  apply stopsIfFailed_iff
  · exact fun r => ⟨by decide +revert, by decide +revert⟩
  · exact fun _ => (by decide : 0 < 8)
  · exact fun _ => (by decide : 8 ≤ 16)
  · decide
  · rfl

/-- One tick for a task that is to sleep afterwards and cannot be deactivated. -/
theorem not_stopsIfFailed : ¬ ∀ (hooks : Hooks 4 Unit) (rings : Fin 4 → Ring) (readersOk : Bool)
    (task task' : Task 4 Unit) (rc : ℤ) (calls : List Call), (∀ r, (rings r).Ok) →
      task.OnRings rings → task.error = false →
      task.sigHn hooks rings readersOk 16 .wakeup = some (rc, task', calls) →
      StopsIfFailed (task.returned hooks rings readersOk 16 .wakeup) readersOk .wakeup rc task' := by
  intro h
  have hstops := h (always .sleep) (ringsWith [(0, tickAt 1)]) false taskAt0 _ _ _
    (fun r => ⟨by decide +revert, by decide +revert⟩) (fun _ => (by decide : 0 < 8)) rfl rfl
  exact absurd (hstops.returns.2 (Or.inr ⟨by decide, rfl⟩)).2 (by decide)

end Task

end Tesd
