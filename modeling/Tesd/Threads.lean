import Tesd.Coordinator

/-!
# The coordinator and the tasks as threads

The calls of `s_new_pkts_hn` and of `task_activate` in their steps.  A step reads or writes at most
one variable of another thread, so that the steps of the threads can come in any order.
-/

namespace Tesd

/-- Where the coordinator is in `s_new_pkts_hn`, with its local variables.  The lists are the tasks
and the rings that a loop has still to do. -/
inductive NewPktsAt (nr nt : ℕ)
  | outside
  | look (tasks : List (Fin nt)) (h : SlowestHeads nr)
  | read (t : Fin nt) (rings : List (Fin nr)) (tasks : List (Fin nt)) (h : SlowestHeads nr)
  | wakeup (heads : Option (Fin nr → ℕ))
  | choose (heads : Option (Fin nr → ℕ)) (rings : List (Fin nr)) (skipped : Bool)
  | release (heads : Option (Fin nr → ℕ)) (r : Fin nr) (newHead : ℕ) (rings : List (Fin nr))

/-- The system in the midst of calls.  `copying` holds for each task in `task_activate` the rings
whose heads it has still to copy.  `found` is not in the program: the tasks that `tasks_get_heads`
has found active in the call and that have stayed so. -/
structure Threads (nr nt : ℕ) (δ : Type) extends Sys nr nt δ where
  coordinator : NewPktsAt nr nt
  copying : Fin nt → Option (List (Fin nr))
  found : Fin nt → Bool

/-- A step of a thread.  `newPkts` and `activate` are the next steps of these calls; the former is
given whether all signals can be sent. -/
inductive ThreadStep (nr nt : ℕ)
  | deliver (r : Fin nr) (pkt : Slot)
  | advance (t : Fin nt) (r : Fin nr)
  | activate (t : Fin nt)
  | deactivate (t : Fin nt) (readersOk : Bool)
  | newPkts (signalled : Bool)

variable {nr nt : ℕ} {δ : Type}

namespace Threads

variable (s : Threads nr nt δ)

/-- The next step of `s_new_pkts_hn`. -/
def newPkts (signalled : Bool) : Threads nr nt δ :=
  match s.coordinator with
  | .outside =>
    { s with coordinator := .look (List.finRange nt) ⟨fun _ => 0, false⟩, found := fun _ => false }
  -- tasks_get_heads
  | .look [] h => { s with coordinator := .wakeup (if h.updated then some h.heads else none) }
  | .look (t :: ts) h =>
    if (s.tasks t).active then
      { s with
        coordinator := .read t (List.finRange nr) ts h
        found := Function.update s.found t true }
    else { s with coordinator := .look ts h }
  | .read _ [] ts h => { s with coordinator := .look ts { h with updated := true } }
  | .read t (r :: rs) ts h => { s with coordinator := .read t rs ts (h.read s.rings (s.tasks t) r) }
  -- tasks_wakeup
  | .wakeup heads =>
    if signalled then
      { s with
        latest := { s.latest with polled := s.latest.polled + 1 }
        coordinator := .choose heads (List.finRange nr) true }
    else { s with coordinator := .outside }
  | .choose _ [] skipped =>
    { s with
      latest := if skipped then { s.latest with skipped := s.latest.skipped + 1 } else s.latest
      coordinator := .outside }
  | .choose heads (r :: rs) skipped =>
    match (s.rings r).newHead (heads.map (· r)) with
    | none => { s with coordinator := .choose heads rs skipped }
    | some newHead => { s with coordinator := .release heads r newHead rs }
  | .release heads r newHead rs =>
    { s with toSys := s.moveHead r newHead, coordinator := .choose heads rs false }

/-- The next step of `task_activate`. -/
def activate (hooks : Fin nt → Hooks nr δ) (t : Fin nt) : Option (Threads nr nt δ) :=
  let task := s.tasks t
  match s.copying t with
  | none =>
    if task.active = false then
      let (woken, data) := (hooks t).dataWakeup task.data
      some { s with
        toSys := s.setTask t { task with data := data }
        copying := Function.update s.copying t (if woken then some (List.finRange nr) else none) }
    else none
  | some (r :: rs) =>
    some { s with
      toSys := s.setTask t { task with heads := Function.update task.heads r (s.rings r).head }
      copying := Function.update s.copying t (some rs) }
  | some [] =>
    some { s with
      toSys := s.setTask t { task with active := true, justActivated := true }
      copying := Function.update s.copying t none }

/-- One step, if it can be taken. -/
def step (hooks : Fin nt → Hooks nr δ) (a : ThreadStep nr nt) (s : Threads nr nt δ) :
    Option (Threads nr nt δ) :=
  match a with
  | .deliver r pkt =>
    ((s.rings r).deliver pkt).map fun ring => { s with toSys := s.setRing r ring }
  | .advance t r =>
    if (s.tasks t).active = true ∧ (s.tasks t).heads r ≠ (s.rings r).tail then
      some { s with toSys := s.setTask t ((s.tasks t).advance s.rings r) }
    else none
  | .activate t => s.activate hooks t
  | .deactivate t readersOk =>
    if s.copying t = none then
      let task := ((s.tasks t).deactivate readersOk).2
      some { s with
        toSys := s.setTask t task
        found := Function.update s.found t (s.found t && task.active) }
    else none
  | .newPkts signalled => some (s.newPkts signalled)

/-! ## Calls that no other step comes between -/

variable {s} {s' s'' : Threads nr nt δ} {hooks : Fin nt → Hooks nr δ} {a : ThreadStep nr nt}

/-- Steps of one call lead from one state to another. -/
def Leads (hooks : Fin nt → Hooks nr δ) (a : ThreadStep nr nt) (s s' : Threads nr nt δ) : Prop :=
  ∃ k, Runs.run (step hooks) (List.replicate k a) s = some s'

theorem Leads.refl (s : Threads nr nt δ) : Leads hooks a s s := ⟨0, rfl⟩

theorem Leads.head (h : step hooks a s = some s') (rest : Leads hooks a s' s'') :
    Leads hooks a s s'' := by
  obtain ⟨k, hk⟩ := rest
  refine ⟨k + 1, ?_⟩
  rw [List.replicate_succ, Runs.run, h]
  exact hk

theorem Leads.trans (h₁ : Leads hooks a s s') (h₂ : Leads hooks a s' s'') :
    Leads hooks a s s'' := by
  obtain ⟨k, hk⟩ := h₁
  obtain ⟨l, hl⟩ := h₂
  refine ⟨k + l, ?_⟩
  rw [← List.replicate_append_replicate, Runs.run_append, hk]
  exact hl

theorem leads_newPkts {signalled : Bool} (h : s.newPkts signalled = s') :
    Leads hooks (.newPkts signalled) s s' :=
  Leads.head (congrArg some h) (Leads.refl s')

variable (hooks) (sys : Sys nr nt δ) (copying : Fin nt → Option (List (Fin nr)))
  (found : Fin nt → Bool)

theorem leads_read (t : Fin nt) (rs : List (Fin nr)) (ts : List (Fin nt)) (h : SlowestHeads nr) :
    Leads hooks (.newPkts true) ⟨sys, .read t rs ts h, copying, found⟩
      ⟨sys, .look ts { rs.foldl (fun h r => h.read sys.rings (sys.tasks t) r) h with
        updated := true }, copying, found⟩ := by
  induction rs generalizing h with
  | nil => exact leads_newPkts rfl
  | cons r rs ih => exact (leads_newPkts rfl).trans (ih (h.read sys.rings (sys.tasks t) r))

/-- `tasks_get_heads` takes the tasks one by one. -/
theorem leads_look (ts : List (Fin nt)) (h : SlowestHeads nr) :
    ∃ found', Leads hooks (.newPkts true) ⟨sys, .look ts h, copying, found⟩
      ⟨sys, .look [] ((ts.map sys.tasks).foldl (SlowestHeads.look sys.rings) h), copying,
        found'⟩ := by
  induction ts generalizing found h with
  | nil => exact ⟨found, Leads.refl _⟩
  | cons t ts ih =>
    rw [List.map_cons, List.foldl_cons, SlowestHeads.look]
    split_ifs with hact
    · obtain ⟨found', hrest⟩ := ih (Function.update found t true)
        { (List.finRange nr).foldl (fun h r => h.read sys.rings (sys.tasks t) r) h with
          updated := true }
      refine ⟨found', (leads_newPkts ?_).trans
        ((leads_read hooks sys copying _ t (List.finRange nr) ts h).trans hrest)⟩
      exact if_pos hact
    · obtain ⟨found', hrest⟩ := ih found h
      refine ⟨found', (leads_newPkts ?_).trans hrest⟩
      exact if_neg hact

theorem leads_choose (heads : Option (Fin nr → ℕ)) (rs : List (Fin nr)) (skipped : Bool) :
    Leads hooks (.newPkts true) ⟨sys, .choose heads rs skipped, copying, found⟩
      ⟨(rs.foldl (Sys.releaseRing heads) (sys, skipped)).1,
        .choose heads [] (rs.foldl (Sys.releaseRing heads) (sys, skipped)).2, copying, found⟩ := by
  induction rs generalizing sys skipped with
  | nil => exact Leads.refl _
  | cons r rs ih =>
    rw [List.foldl_cons, Sys.releaseRing]
    cases hnew : (sys.rings r).newHead (heads.map (· r)) with
    | none =>
      refine (leads_newPkts ?_).trans (ih sys skipped)
      unfold newPkts
      dsimp only
      rw [hnew]
    | some newHead =>
      have hchoose : newPkts ⟨sys, .choose heads (r :: rs) skipped, copying, found⟩ true =
          ⟨sys, .release heads r newHead rs, copying, found⟩ := by
        unfold newPkts
        dsimp only
        rw [hnew]
      exact (leads_newPkts hchoose).trans
        ((leads_newPkts rfl).trans (ih (sys.moveHead r newHead) false))

/-- Alone, the steps of `s_new_pkts_hn` are a whole call. -/
theorem leads_newPktsHn :
    ∃ found', Leads hooks (.newPkts true) ⟨sys, .outside, copying, found⟩
      ⟨(sys.newPktsHn true).2, .outside, copying, found'⟩ := by
  obtain ⟨found', hlook⟩ := leads_look hooks sys copying (fun _ => false) (List.finRange nt)
    ⟨fun _ => 0, false⟩
  have hchoose := leads_choose hooks
    { sys with latest := { sys.latest with polled := sys.latest.polled + 1 } } copying found'
    (tasksGetHeads sys.rings sys.taskList) (List.finRange nr) true
  refine ⟨found', (leads_newPkts rfl).trans (hlook.trans ((leads_newPkts rfl).trans
    ((leads_newPkts rfl).trans (hchoose.trans (leads_newPkts ?_)))))⟩
  unfold newPkts Sys.newPktsHn
  dsimp only
  rw [Bool.not_true, if_neg Bool.false_ne_true]
  dsimp only
  generalize (List.finRange nr).foldl _ _ = p
  obtain ⟨s₁, skipped⟩ := p
  cases skipped <;> rfl

theorem leads_copy (t : Fin nt) (coordinator : NewPktsAt nr nt) (rs : List (Fin nr))
    (at_ : copying t = some rs) :
    Leads hooks (.activate t) ⟨sys, coordinator, copying, found⟩
      ⟨sys.setTask t { sys.tasks t with
        heads := fun r => if r ∈ rs then (sys.rings r).head else (sys.tasks t).heads r },
        coordinator, Function.update copying t (some []), found⟩ := by
  induction rs generalizing sys copying with
  | nil =>
    have hsame : sys.setTask t { sys.tasks t with
        heads := fun r => if r ∈ [] then (sys.rings r).head else (sys.tasks t).heads r } = sys := by
      simp only [List.not_mem_nil, if_false]
      exact Sys.setTask_eq_self sys t
    rw [hsame, ← at_, Function.update_eq_self]
    exact Leads.refl _
  | cons q rs ih =>
    have hrest := ih (sys.setTask t { sys.tasks t with
        heads := Function.update (sys.tasks t).heads q (sys.rings q).head })
      (Function.update copying t (some rs)) (Function.update_self _ _ _)
    rw [Sys.setTask_self, Sys.setTask_setTask, Function.update_idem] at hrest
    have hheads : (fun r => if r ∈ rs then (sys.rings r).head
          else Function.update (sys.tasks t).heads q (sys.rings q).head r) =
        fun r => if r ∈ q :: rs then (sys.rings r).head else (sys.tasks t).heads r := by
      funext r
      by_cases hr : r = q
      · subst hr
        simp
      · simp [hr]
    refine Leads.head ?_ (hheads ▸ hrest)
    rw [step, activate]
    dsimp only
    rw [at_]

theorem leads_copied (t : Fin nt) (coordinator : NewPktsAt nr nt) (rs : List (Fin nr))
    (at_ : copying t = some rs) :
    Leads hooks (.activate t) ⟨sys, coordinator, copying, found⟩
      ⟨sys.setTask t { sys.tasks t with
        heads := fun r => if r ∈ rs then (sys.rings r).head else (sys.tasks t).heads r
        active := true
        justActivated := true },
        coordinator, Function.update copying t none, found⟩ := by
  refine (leads_copy hooks sys copying found t coordinator rs at_).trans
    (Leads.head ?_ (Leads.refl _))
  simp only [step, activate, Function.update_self, Function.update_idem, Sys.setTask_self,
    Sys.setTask_setTask]

/-- Alone, the steps of `task_activate` are a whole call. -/
theorem leads_taskActivate (t : Fin nt) (coordinator : NewPktsAt nr nt)
    (idle : (sys.tasks t).active = false) (out : copying t = none) :
    Leads hooks (.activate t) ⟨sys, coordinator, copying, found⟩
      ⟨sys.setTask t ((sys.tasks t).activate (hooks t) sys.rings).2, coordinator, copying,
        found⟩ := by
  rw [Task.activate]
  cases hwake : (hooks t).dataWakeup (sys.tasks t).data with
  | mk woken data =>
    cases woken with
    | false =>
      refine Leads.head ?_ (Leads.refl _)
      simp only [step, activate, out, idle, hwake, if_true, Bool.false_eq_true, if_false]
      rw [← out, Function.update_eq_self]
    | true =>
      have hbegin : step hooks (.activate t) ⟨sys, coordinator, copying, found⟩ =
          some ⟨sys.setTask t { sys.tasks t with data := data }, coordinator,
            Function.update copying t (some (List.finRange nr)), found⟩ := by
        simp only [step, activate, out, idle, hwake, if_true]
      have hcopied := leads_copied hooks (sys.setTask t { sys.tasks t with data := data })
        (Function.update copying t (some (List.finRange nr))) found t coordinator
        (List.finRange nr) (Function.update_self _ _ _)
      simp only [Function.update_idem, Sys.setTask_self, Sys.setTask_setTask, List.mem_finRange,
        if_true] at hcopied
      rw [← out, Function.update_eq_self] at hcopied
      exact Leads.head hbegin hcopied

end Threads

end Tesd
