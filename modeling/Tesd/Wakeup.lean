import Mathlib.Data.Fintype.Card
import Tesd.Tasks

/-!
# What a wakeup does to a task

`s_sig_hn` hands a task the packets it has not read yet, one ring after the other.  The heads of the
task move on over the packets that were handled, and never past a tail.
-/

namespace Tesd

/-! ## Calls of the packet handler -/

/-- The calls for these packets, after a packet with the sequence number `prev`. -/
def callsFrom (prev : ℕ) : List Slot → List Call
  | [] => []
  | p :: ps => ⟨p, fseqGap p.pkt.fseq prev⟩ :: callsFrom p.pkt.fseq ps

/-- The sequence number of the last of these packets. -/
def lastFseq (prev : ℕ) : List Slot → ℕ
  | [] => prev
  | p :: ps => lastFseq p.pkt.fseq ps

theorem callsFrom_append (prev : ℕ) (ps qs : List Slot) :
    callsFrom prev (ps ++ qs) = callsFrom prev ps ++ callsFrom (lastFseq prev ps) qs := by
  induction ps generalizing prev with
  | nil => rfl
  | cons p ps ih => rw [List.cons_append, callsFrom, ih, callsFrom, lastFseq, List.cons_append]

theorem lastFseq_append (prev : ℕ) (ps qs : List Slot) :
    lastFseq prev (ps ++ qs) = lastFseq (lastFseq prev ps) qs := by
  induction ps generalizing prev with
  | nil => rfl
  | cons p ps ih => rw [List.cons_append, lastFseq, ih, lastFseq]

namespace Task

variable {nr : ℕ} {δ : Type} {hooks : Hooks nr δ} {rings : Fin nr → Ring} {task : Task nr δ}

/-- Every head of the task lies between the head and the tail of its ring. -/
def Holds (rings : Fin nr → Ring) (task : Task nr δ) : Prop := ∀ r, (rings r).Holds (task.heads r)

/-- The packets of a ring that the task has not read. -/
def unread (rings : Fin nr → Ring) (r : Fin nr) (task : Task nr δ) : List Slot :=
  (rings r).between (task.heads r) (rings r).tail

/-! ## One ring -/

section Dispatch

variable {r : Fin nr} {rc : TaskRc} {task' : Task nr δ} {calls : List Call}

/-- What `s_task_dispatch` on ring `r` does: it handles the first of the unread packets, and all of
them unless the packet handler wants no more. -/
structure Dispatched (rings : Fin nr → Ring) (r : Fin nr) (task : Task nr δ) (rc : TaskRc)
    (task' : Task nr δ) (calls : List Call) : Prop where
  holds : (rings r).Holds (task'.heads r)
  heads : ∀ q, q ≠ r → task'.heads q = task.heads q
  active : task'.active = task.active
  justActivated : task'.justActivated = task.justActivated
  error : task'.error = task.error
  handled : ∃ done rest, done ++ rest = task.unread rings r ∧ calls = callsFrom task.prevFseq done ∧
    task'.prevFseq = lastFseq task.prevFseq done ∧ (task.heads r ≠ (rings r).tail → done ≠ []) ∧
    (rc = .zero → rest = [] ∧ task'.heads r = (rings r).tail)

/-- The call of the packet handler for the packet at the head. -/
def handle (hooks : Hooks nr δ) (rings : Fin nr → Ring) (r : Fin nr) (task : Task nr δ) :
    TaskRc × δ :=
  let slot := (rings r).slot (task.heads r)
  hooks.pktHandler task slot.pkt slot.flen (fseqGap slot.pkt.fseq task.prevFseq) slot.err

/-- The task after it has seen the packet at the head. -/
def look (hooks : Hooks nr δ) (rings : Fin nr → Ring) (r : Fin nr) (task : Task nr δ) : Task nr δ :=
  task.seen ((rings r).slot (task.heads r)).pkt (task.handle hooks rings r).2

/-- The call for the packet at the head of a ring. -/
def headCall (rings : Fin nr → Ring) (r : Fin nr) (task : Task nr δ) : Call :=
  ⟨(rings r).slot (task.heads r), fseqGap ((rings r).slot (task.heads r)).pkt.fseq task.prevFseq⟩

theorem dispatch_of_tail (fuel : ℕ) (h : task.heads r = (rings r).tail) :
    task.dispatch hooks rings r (fuel + 1) = some (.zero, task, []) := by
  rw [dispatch, if_pos h]

theorem dispatch_of_ne (fuel : ℕ) (h : task.heads r ≠ (rings r).tail) :
    task.dispatch hooks rings r (fuel + 1) =
      let slot := (rings r).slot (task.heads r)
      let call : Call := ⟨slot, fseqGap slot.pkt.fseq task.prevFseq⟩
      if (task.handle hooks rings r).1 ≠ .zero then
        some ((task.handle hooks rings r).1, task.look hooks rings r, [call])
      else
        (dispatch hooks rings r fuel ((task.look hooks rings r).advance rings r)).map
          fun (rc, task, calls) => (rc, task, call :: calls) := by
  rw [dispatch, if_neg h]
  rfl

theorem unread_of_ne (hooks : Hooks nr δ) (ok : (rings r).Ok) (holds : (rings r).Holds (task.heads r))
    (ne : task.heads r ≠ (rings r).tail) :
    task.unread rings r =
      (rings r).slot (task.heads r) :: ((task.look hooks rings r).advance rings r).unread rings r := by
  rw [unread, Ring.between_cons ok holds ne, unread, advance]
  dsimp only
  rw [Function.update_self]
  rfl

theorem holds_advance (task : Task nr δ) (ok : (rings r).Ok) (holds : (rings r).Holds (task.heads r))
    (ne : task.heads r ≠ (rings r).tail) : (rings r).Holds ((task.advance rings r).heads r) := by
  rw [advance]
  dsimp only
  rw [Function.update_self]
  exact (Ring.holds_following ok holds ne).1

theorem dispatch_spec (ok : (rings r).Ok) {fuel : ℕ}
    (h : task.dispatch hooks rings r fuel = some (rc, task', calls))
    (holds : (rings r).Holds (task.heads r)) :
    Dispatched rings r task rc task' calls := by
  induction fuel generalizing task calls with
  | zero => cases h
  | succ fuel ih =>
    by_cases ne : task.heads r = (rings r).tail
    · rw [dispatch_of_tail fuel ne] at h
      cases h
      refine ⟨holds, fun _ _ => rfl, rfl, rfl, rfl, [], [], ?_, rfl, rfl, fun hne => absurd ne hne,
        fun _ => ⟨rfl, ne⟩⟩
      rw [unread, ne, Ring.between_self, List.append_nil]
    · have hunread := unread_of_ne hooks ok holds ne
      rw [dispatch_of_ne fuel ne] at h
      dsimp only at h
      split_ifs at h with hrc
      · -- the handler wants no more: the head stays at the packet it has seen
        cases h
        refine ⟨holds, fun _ _ => rfl, rfl, rfl, rfl, [(rings r).slot (task.heads r)], _,
          hunread.symm, rfl, rfl, fun _ => List.cons_ne_nil _ _, fun hz => absurd hz hrc⟩
      · obtain ⟨⟨rc₁, task₁, calls₁⟩, h₁, heq⟩ := Option.map_eq_some_iff.1 h
        cases heq
        have rest := ih h₁ (holds_advance (task.look hooks rings r) ok holds ne)
        obtain ⟨done, left, happ, hcalls, hprev, -, hzero⟩ := rest.handled
        refine ⟨rest.holds, fun q hq => (rest.heads q hq).trans (Function.update_of_ne hq _ _),
          rest.active, rest.justActivated, rest.error, (rings r).slot (task.heads r) :: done, left,
          ?_, ?_, hprev, fun _ => List.cons_ne_nil _ _, hzero⟩
        · rw [hunread, List.cons_append, happ]
        · rw [callsFrom, hcalls]
          rfl

/-- As many turns as there are slots on the way to the tail are enough. -/
theorem dispatch_isSome (hooks : Hooks nr δ) (ok : (rings r).Ok) {fuel : ℕ}
    (enough : (task.unread rings r).length < fuel) (holds : (rings r).Holds (task.heads r)) :
    (task.dispatch hooks rings r fuel).isSome := by
  induction fuel generalizing task with
  | zero => exact absurd enough (Nat.not_lt_zero _)
  | succ fuel ih =>
    by_cases ne : task.heads r = (rings r).tail
    · rw [dispatch_of_tail fuel ne]
      rfl
    · rw [dispatch_of_ne fuel ne]
      dsimp only
      split_ifs with hrc
      · rfl
      · rw [Option.isSome_map]
        rw [unread_of_ne hooks ok holds ne, List.length_cons] at enough
        exact ih (by omega) (holds_advance (task.look hooks rings r) ok holds ne)

end Dispatch

/-! ## One wakeup -/

section Process

variable {readersOk : Bool} {len fuel : ℕ} {task' : Task nr δ} {calls : List Call}

theorem firstRing_spec (rings : Fin nr → Ring) (l : List (Fin nr)) (next : Option (Fin nr)) (task : Task nr δ) :
    (∃ prev, (firstRing rings l next task).2 = { task with prevFseq := prev }) ∧
      ∀ r, (firstRing rings l next task).1 = some r →
        next = some r ∨ task.heads r ≠ (rings r).tail := by
  induction l generalizing next task with
  | nil => exact ⟨⟨task.prevFseq, rfl⟩, fun r hr => Or.inl hr⟩
  | cons q l ih =>
    rw [firstRing]
    dsimp only
    split_ifs with hempty hfirst
    · exact ih next task
    · obtain ⟨⟨prev, hprev⟩, hnext⟩ := ih (some q) { task with
        prevFseq := ((((rings q).slot (task.heads q)).pkt.fseq - 1 : ℤ) % 2 ^ 16).toNat }
      refine ⟨⟨prev, hprev⟩, fun r hr => ?_⟩
      rcases hnext r hr with hq | hne
      · obtain rfl := Option.some.inj hq
        exact Or.inr (Ne.symm hempty)
      · exact Or.inr hne
    · exact ih next task

theorem closestRing_spec (l : List (Fin nr)) (missed : ℕ) (next : Option (Fin nr)) :
    ∀ r, (closestRing rings task l missed next).1 = some r →
      next = some r ∨ task.heads r ≠ (rings r).tail := by
  induction l generalizing missed next with
  | nil => exact fun r hr => Or.inl hr
  | cons q l ih =>
    intro r hr
    rw [closestRing] at hr
    dsimp only at hr
    split_ifs at hr with hempty hgap hzero
    · exact ih missed next r hr
    · obtain rfl := Option.some.inj hr
      exact Or.inr (Ne.symm hempty)
    · rcases ih _ _ r hr with hq | hne
      · obtain rfl := Option.some.inj hq
        exact Or.inr (Ne.symm hempty)
      · exact Or.inr hne
    · exact ih missed next r hr

theorem firstRing_of_tail (l : List (Fin nr)) (next : Option (Fin nr))
    (h : ∀ r ∈ l, task.heads r = (rings r).tail) :
    firstRing rings l next task = (next, task) := by
  induction l generalizing next with
  | nil => rfl
  | cons r l ih =>
    rw [firstRing, if_pos (h r (by simp)).symm]
    exact ih next fun q hq => h q (List.mem_cons_of_mem _ hq)

theorem closestRing_of_tail (l : List (Fin nr)) (missed : ℕ) (next : Option (Fin nr))
    (h : ∀ r ∈ l, task.heads r = (rings r).tail) :
    closestRing rings task l missed next = (next, missed) := by
  induction l generalizing missed next with
  | nil => rfl
  | cons r l ih =>
    rw [closestRing, if_pos (h r (by simp)).symm]
    exact ih missed next fun q hq => h q (List.mem_cons_of_mem _ hq)

/-- The ring that `s_task_next_ring` chooses has a packet for the task. -/
theorem nextRing_spec (rings : Fin nr → Ring) (task : Task nr δ) :
    (∃ prev, (task.nextRing rings).2 = { task with prevFseq := prev }) ∧
      ∀ r, (task.nextRing rings).1.1 = some r → task.heads r ≠ (rings r).tail := by
  unfold nextRing
  split_ifs
  · obtain ⟨hprev, hnext⟩ := firstRing_spec rings (List.finRange nr) none task
    exact ⟨hprev, fun r hr => (hnext r hr).resolve_left nofun⟩
  · refine ⟨⟨task.prevFseq, rfl⟩, fun r hr => ?_⟩
    exact (closestRing_spec (List.finRange nr) 0xFFFF none r hr).resolve_left nofun

/-- One turn of the loop of `s_sig_hn`. -/
theorem process_cases (h : process hooks rings readersOk len (fuel + 1) task = some (task', calls)) :
    (((task.nextRing rings).1.1 = none ∧ task' = (task.nextRing rings).2 ∧ calls = []) ∨
      ∃ r rc task₁ calls₁, (task.nextRing rings).1.1 = some r ∧
        (task.nextRing rings).2.dispatch hooks rings r len = some (rc, task₁, calls₁) ∧
        ((rc = .sleep ∧ calls = calls₁ ∧
            task' = ({ task₁ with justActivated := false }.deactivate readersOk).2) ∨
          (rc = .error ∧ calls = calls₁ ∧
            task' = { task₁ with justActivated := false, error := true }) ∨
          (rc = .zero ∧ ∃ more, calls = calls₁ ++ more ∧
            process hooks rings readersOk len fuel { task₁ with justActivated := false } =
              some (task', more)))) := by
  rw [process] at h
  generalize task.nextRing rings = n at h ⊢
  obtain ⟨⟨next, missed⟩, task₀⟩ := n
  cases next with
  | none =>
    cases h
    exact Or.inl ⟨rfl, rfl, rfl⟩
  | some r =>
    dsimp only at h
    cases hd : task₀.dispatch hooks rings r len with
    | none =>
      rw [hd] at h
      cases h
    | some res =>
      obtain ⟨rc, task₁, calls₁⟩ := res
      rw [hd] at h
      refine Or.inr ⟨r, rc, task₁, calls₁, rfl, hd, ?_⟩
      cases rc with
      | sleep =>
        cases h
        exact Or.inl ⟨rfl, rfl, rfl⟩
      | error =>
        cases h
        exact Or.inr (Or.inl ⟨rfl, rfl, rfl⟩)
      | zero =>
        obtain ⟨⟨task₂, more⟩, h₂, heq⟩ := Option.map_eq_some_iff.1 h
        cases heq
        exact Or.inr (Or.inr ⟨rfl, more, rfl, h₂⟩)

theorem holds_of_dispatched {r : Fin nr} {rc : TaskRc}
    (h : Dispatched rings r task rc task' calls) (holds : task.Holds rings) : task'.Holds rings := by
  intro q
  by_cases hq : q = r
  · rw [hq]
    exact h.holds
  · rw [h.heads q hq]
    exact holds q

/-- A task that wakes up starts at the heads of the rings. -/
theorem activate_spec (idle : task.active = false)
    (h : (task.activate hooks rings).2.active = true) :
    (task.activate hooks rings).2.heads = (fun r => (rings r).head) ∧
      (task.activate hooks rings).2.justActivated = true := by
  unfold activate at h ⊢
  cases hd : hooks.dataWakeup task.data with
  | mk woken data =>
    rw [hd] at h
    cases woken with
    | false => exact absurd h (by simp [idle])
    | true => exact ⟨rfl, rfl⟩

theorem deactivate_eq (readersOk : Bool) (task : Task nr δ) :
    (task.deactivate readersOk).2 = { task with active := task.active && !readersOk } := by
  unfold deactivate
  cases readersOk
  · rw [Bool.not_false, Bool.and_true]
    rfl
  · rw [Bool.not_true, Bool.and_false]
    rfl

theorem deactivate_spec (readersOk : Bool) (task : Task nr δ) :
    (task.deactivate readersOk).2.heads = task.heads ∧
      ((task.deactivate readersOk).2.active = true → task.active = true) := by
  rw [deactivate_eq]
  exact ⟨rfl, fun h => (Bool.and_eq_true_iff.1 h).1⟩

/-- The loop of `s_sig_hn` keeps the heads of the task where the rings hold them. -/
theorem process_spec (ok : ∀ r, (rings r).Ok)
    (h : process hooks rings readersOk len fuel task = some (task', calls))
    (holds : task.Holds rings) :
    task'.Holds rings ∧ (task'.active = true → task.active = true) := by
  induction fuel generalizing task calls with
  | zero => cases h
  | succ fuel ih =>
    obtain ⟨⟨prev, hprev⟩, -⟩ := nextRing_spec rings task
    rcases process_cases h with ⟨-, rfl, -⟩ | ⟨r, rc, task₁, calls₁, -, hd, hrc⟩
    · rw [hprev]
      exact ⟨holds, id⟩
    · rw [hprev] at hd
      have disp := dispatch_spec (ok r) hd (holds r)
      have hact : task₁.active = task.active := disp.active
      have holds₁ : task₁.Holds rings := holds_of_dispatched disp holds
      rcases hrc with ⟨-, -, rfl⟩ | ⟨-, -, rfl⟩ | ⟨-, more, -, hmore⟩
      · obtain ⟨hheads, hactive⟩ :=
          deactivate_spec readersOk { task₁ with justActivated := false }
        refine ⟨fun q => ?_, fun ha => hact ▸ hactive ha⟩
        rw [hheads]
        exact holds₁ q
      · exact ⟨holds₁, fun ha => hact ▸ ha⟩
      · obtain ⟨h₁, h₂⟩ := ih hmore holds₁
        exact ⟨h₁, fun ha => hact ▸ h₂ ha⟩

/-- The rings with packets for the task. -/
def behind (rings : Fin nr → Ring) (task : Task nr δ) : Finset (Fin nr) :=
  Finset.univ.filter fun r => task.heads r ≠ (rings r).tail

/-- A ring that has been read to its tail has no more packets for the task. -/
theorem card_behind_lt {r : Fin nr} (heads : ∀ q, q ≠ r → task'.heads q = task.heads q)
    (htail : task'.heads r = (rings r).tail) (ne : task.heads r ≠ (rings r).tail) :
    (task'.behind rings).card < (task.behind rings).card := by
  refine Finset.card_lt_card ⟨fun q hq => ?_, fun hsub => ?_⟩
  · have hq' := (Finset.mem_filter.1 hq).2
    have hqr : q ≠ r := by
      rintro rfl
      exact hq' htail
    rw [heads q hqr] at hq'
    exact Finset.mem_filter.2 ⟨Finset.mem_univ q, hq'⟩
  · have hr := hsub (Finset.mem_filter.2 ⟨Finset.mem_univ r, ne⟩)
    exact (Finset.mem_filter.1 hr).2 htail

/-- The loop of `s_sig_hn` ends after as many turns as there are rings with packets. -/
theorem process_isSome (hooks : Hooks nr δ) (readersOk : Bool) (ok : ∀ r, (rings r).Ok) (enough : ∀ r, (rings r).numSlots ≤ len)
    (hfuel : (task.behind rings).card < fuel) (holds : task.Holds rings) :
    (process hooks rings readersOk len fuel task).isSome := by
  induction fuel generalizing task with
  | zero => exact absurd hfuel (Nat.not_lt_zero _)
  | succ fuel ih =>
    obtain ⟨⟨prev, hprev⟩, hnext⟩ := nextRing_spec rings task
    rw [process]
    generalize task.nextRing rings = n at hprev hnext ⊢
    obtain ⟨⟨next, missed⟩, task₀⟩ := n
    obtain rfl : task₀ = { task with prevFseq := prev } := hprev
    cases next with
    | none => rfl
    | some r =>
      have hlen : (({ task with prevFseq := prev } : Task nr δ).unread rings r).length < len := by
        rw [unread, Ring.length_between]
        exact Nat.lt_of_lt_of_le (Circular.dist_lt (holds r).lt (ok r).tail) (enough r)
      obtain ⟨⟨rc, task₁, calls₁⟩, hd⟩ := Option.isSome_iff_exists.1
        (dispatch_isSome hooks (ok r) hlen (holds r))
      have disp := dispatch_spec (ok r) hd (holds r)
      dsimp only
      rw [hd]
      cases rc with
      | sleep => rfl
      | error => rfl
      | zero =>
        have holds₁ : task₁.Holds rings := holds_of_dispatched disp holds
        obtain ⟨_, _, -, -, -, -, hzero⟩ := disp.handled
        have hlt := card_behind_lt disp.heads (hzero rfl).2 (hnext r rfl)
        dsimp only
        rw [Option.isSome_map]
        apply ih
        · exact Nat.lt_of_lt_of_le hlt (Nat.le_of_lt_succ hfuel)
        · exact holds₁

end Process

section SigHn

variable {readersOk : Bool} {fuel : ℕ} {sig : Signal} {rc : ℤ} {task' : Task nr δ}
  {calls : List Call}

/-- A wakeup handler leaves an active task active only, and its heads where the rings hold them. -/
theorem sigHn_spec (ok : ∀ r, (rings r).Ok)
    (h : task.sigHn hooks rings readersOk fuel sig = some (rc, task', calls))
    (holds : task.active = true → task.Holds rings) : task'.active = true → task'.Holds rings := by
  intro hact
  unfold sigHn at h
  dsimp only at h
  split_ifs at h with hstop hidle
  · cases h
    exact holds hact
  · cases h
    cases hact.symm.trans hidle
  · have active : task.active = true := by simpa using hidle
    cases hp : process hooks rings readersOk fuel fuel { task with busy := true } with
    | none =>
      rw [hp] at h
      cases h
    | some res =>
      obtain ⟨task₁, calls₁⟩ := res
      rw [hp] at h
      cases h
      exact (process_spec ok hp (holds active)).1

/-- With as much fuel as there are slots in a ring, and more than there are rings, the wakeup
handler returns. -/
theorem sigHn_isSome (ok : ∀ r, (rings r).Ok) (enough : ∀ r, (rings r).numSlots ≤ fuel)
    (hfuel : nr < fuel) (holds : task.active = true → task.Holds rings) :
    (task.sigHn hooks rings readersOk fuel sig).isSome := by
  unfold sigHn
  dsimp only
  split_ifs with hstop hidle
  · rfl
  · rfl
  · have active : task.active = true := by simpa using hidle
    have hcard : (({ task with busy := true } : Task nr δ).behind rings).card < fuel :=
      Nat.lt_of_le_of_lt (Finset.card_le_univ _) (by rwa [Fintype.card_fin])
    obtain ⟨⟨task₁, calls₁⟩, hp⟩ := Option.isSome_iff_exists.1
      (process_isSome hooks readersOk ok enough hcard (holds active))
    rw [hp]
    rfl

end SigHn

end Task

end Tesd
