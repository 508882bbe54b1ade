import Tesd.Release
import Tesd.Threads

/-!
# Activation against a concurrent release

`tasks_get_heads` may look at a task before it is active, and the release that follows may come
after the task has copied the heads of the rings.  As long as no release passes the heads of such a
task, the heads of the active tasks stay between the heads and the tails of the rings, whatever the
order of the threads' steps.
-/

namespace Tesd

namespace Threads

variable {nr nt : ℕ} {δ : Type}

/-! ## The invariant -/

section Invariant

variable (s : Threads nr nt δ)

/-- The task relies on its head of the ring: it is active, or it has copied the head in
`task_activate`. -/
def Copied (t : Fin nt) (r : Fin nr) : Prop :=
  (s.tasks t).active = true ∨ ∃ rs, s.copying t = some rs ∧ r ∉ rs

/-- The slot is between the head and the tail of the ring, and none of these tasks that the call has
found active has its head before it. -/
def Low (p : Fin nt → Prop) (r : Fin nr) (id : ℕ) : Prop :=
  (s.rings r).Holds id ∧ ∀ t, s.found t = true → p t →
    Circular.dist (s.rings r).numSlots (s.rings r).head id ≤
      Circular.dist (s.rings r).numSlots (s.rings r).head ((s.tasks t).heads r)

/-- What `tasks_get_heads` has returned is right for these rings. -/
def HeadsOk (heads : Option (Fin nr → ℕ)) (rings : List (Fin nr)) : Prop :=
  (heads = none → ∀ t, s.found t = false) ∧
    ∀ hs, heads = some hs → ∀ r ∈ rings, s.Low (fun _ => True) r (hs r)

/-- What holds of the local variables of `s_new_pkts_hn`. -/
def LocalsOk : Prop :=
  match s.coordinator with
  | .outside => True
  | .look _ h =>
    (h.updated = false → ∀ t, s.found t = false) ∧
      (h.updated = true → ∀ r, s.Low (fun _ => True) r (h.heads r))
  | .read t rs _ h =>
    (s.tasks t).Holds s.rings ∧ (h.updated = false → ∀ u, u ≠ t → s.found u = false) ∧
      (h.updated = true → ∀ r, s.Low (· ≠ t) r (h.heads r)) ∧
      ∀ r, r ∉ rs → s.Low (fun _ => True) r (h.heads r)
  | .wakeup heads => s.HeadsOk heads (List.finRange nr)
  | .choose heads rs _ => rs.Nodup ∧ s.HeadsOk heads rs
  | .release heads r newHead rs =>
    (r :: rs).Nodup ∧ s.HeadsOk heads rs ∧ s.Low (fun _ => True) r newHead

/-- The invariant of the threads. -/
structure Inv : Prop where
  rings : ∀ r, (s.rings r).Ok
  copied : ∀ t r, s.Copied t r → (s.rings r).Holds ((s.tasks t).heads r)
  found : ∀ t, s.found t = true → (s.tasks t).active = true
  idle : ∀ t, s.copying t ≠ none → (s.tasks t).active = false
  locals : s.LocalsOk

/-- No thread is in a call and no task is active. -/
structure Start : Prop where
  rings : ∀ r, (s.rings r).Ok
  idle : ∀ t, (s.tasks t).active = false
  outside : s.coordinator = .outside
  copying : ∀ t, s.copying t = none
  found : ∀ t, s.found t = false

end Invariant

variable {s s' : Threads nr nt δ} {hooks : Fin nt → Hooks nr δ}

theorem inv_of_start (start : s.Start) : s.Inv := by
  refine ⟨start.rings, fun t r hc => ?_, fun t ht => ?_, fun t _ => start.idle t, ?_⟩
  · rcases hc with hact | ⟨rs, hrs, -⟩
    · cases (start.idle t).symm.trans hact
    · cases (start.copying t).symm.trans hrs
  · cases (start.found t).symm.trans ht
  · unfold LocalsOk
    rw [start.outside]
    trivial

/-! ## Steps of the kernel and of the tasks -/

/-- What a step of the kernel or of a task leaves to the coordinator: heads of rings that stay,
slots that it may still release, and found tasks whose heads move forward. -/
structure Moves (s s' : Threads nr nt δ) : Prop where
  coordinator : s'.coordinator = s.coordinator
  ok : ∀ r, (s'.rings r).Ok
  numSlots : ∀ r, (s'.rings r).numSlots = (s.rings r).numSlots
  head : ∀ r, (s'.rings r).head = (s.rings r).head
  holds : ∀ r id, (s.rings r).Holds id → (s'.rings r).Holds id
  heads : ∀ t, (s.tasks t).Holds s.rings → (s'.tasks t).Holds s'.rings
  copied : ∀ t r, s'.Copied t r → (s'.rings r).Holds ((s'.tasks t).heads r)
  idle : ∀ t, s'.copying t ≠ none → (s'.tasks t).active = false
  found : ∀ t, s'.found t = true → s.found t = true ∧ (s'.tasks t).active = true ∧
    ∀ r, Circular.dist (s.rings r).numSlots (s.rings r).head ((s.tasks t).heads r) ≤
      Circular.dist (s.rings r).numSlots (s.rings r).head ((s'.tasks t).heads r)

section Moves

variable (m : Moves s s')
include m

theorem Moves.low {p : Fin nt → Prop} {r : Fin nr} {id : ℕ} (low : s.Low p r id) :
    s'.Low p r id := by
  refine ⟨m.holds r id low.1, fun t ht hp => ?_⟩
  obtain ⟨hfound, -, hle⟩ := m.found t ht
  rw [m.numSlots r, m.head r]
  exact Nat.le_trans (low.2 t hfound hp) (hle r)

theorem Moves.not_found {t : Fin nt} (h : s.found t = false) : s'.found t = false := by
  cases ht : s'.found t with
  | false => rfl
  | true => exact absurd (m.found t ht).1 (by simp [h])

theorem Moves.headsOk {heads : Option (Fin nr → ℕ)} {rs : List (Fin nr)}
    (h : s.HeadsOk heads rs) : s'.HeadsOk heads rs :=
  ⟨fun hn t => m.not_found (h.1 hn t), fun hs hhs r hr => m.low (h.2 hs hhs r hr)⟩

theorem Moves.localsOk (h : s.LocalsOk) : s'.LocalsOk := by
  unfold LocalsOk at h ⊢
  rw [m.coordinator]
  cases hc : s.coordinator with
  | outside => trivial
  | look ts l =>
    rw [hc] at h
    exact ⟨fun hu t => m.not_found (h.1 hu t), fun hu r => m.low (h.2 hu r)⟩
  | read t rs ts l =>
    rw [hc] at h
    obtain ⟨hholds, hnone, hbut, hall⟩ := h
    exact ⟨m.heads t hholds, fun hu u hut => m.not_found (hnone hu u hut),
      fun hu r => m.low (hbut hu r), fun r hr => m.low (hall r hr)⟩
  | wakeup heads =>
    rw [hc] at h
    exact m.headsOk h
  | choose heads rs skipped =>
    rw [hc] at h
    exact ⟨h.1, m.headsOk h.2⟩
  | release heads r newHead rs =>
    rw [hc] at h
    exact ⟨h.1, m.headsOk h.2.1, m.low h.2.2⟩

theorem Moves.inv (inv : s.Inv) : s'.Inv :=
  ⟨m.ok, m.copied, fun t ht => (m.found t ht).2.1, m.idle, m.localsOk inv.locals⟩

end Moves

theorem moves_of_deliver (inv : s.Inv) {r : Fin nr} {pkt : Slot} {ring : Ring}
    (h : (s.rings r).deliver pkt = some ring) :
    Moves s { s with toSys := s.setRing r ring } := by
  obtain ⟨-, heq⟩ := Ring.deliver_eq h
  have hring : ∀ q, ((s.setRing r ring).rings q = s.rings q) ∨
      (q = r ∧ (s.setRing r ring).rings q = ring) := by
    intro q
    by_cases hq : q = r
    · exact Or.inr ⟨hq, by rw [hq, Sys.setRing_self]⟩
    · exact Or.inl (Sys.setRing_of_ne _ hq _)
  have holds : ∀ q id, (s.rings q).Holds id → ((s.setRing r ring).rings q).Holds id := by
    intro q id hid
    rcases hring q with hq | ⟨rfl, hq⟩
    · rwa [hq]
    · rw [hq]
      exact Ring.holds_deliver (inv.rings q) h hid
  refine ⟨rfl, fun q => ?_, fun q => ?_, fun q => ?_, holds, fun t ht q => holds q _ (ht q),
    fun t q hc => holds q _ (inv.copied t q hc), inv.idle,
    fun t ht => ⟨ht, inv.found t ht, fun q => Nat.le_refl _⟩⟩
  all_goals rcases hring q with hq | ⟨rfl, hq⟩
  all_goals dsimp only; rw [hq]
  · exact inv.rings q
  · exact (Ring.deliver_ok (inv.rings q) h).1
  · rw [heq]
  · rw [heq]

/-- A step of one task leaves the others alone. -/
theorem moves_of_task (inv : s.Inv) (t : Fin nt) (coordinator : s'.coordinator = s.coordinator)
    (rings : s'.rings = s.rings)
    (others : ∀ u, u ≠ t → s'.tasks u = s.tasks u ∧ s'.copying u = s.copying u ∧
      s'.found u = s.found u)
    (heads : (s.tasks t).Holds s.rings → (s'.tasks t).Holds s.rings)
    (copied : ∀ r, s'.Copied t r → (s.rings r).Holds ((s'.tasks t).heads r))
    (idle : s'.copying t ≠ none → (s'.tasks t).active = false)
    (found : s'.found t = true → s.found t = true ∧ (s'.tasks t).active = true ∧
      ∀ r, Circular.dist (s.rings r).numSlots (s.rings r).head ((s.tasks t).heads r) ≤
        Circular.dist (s.rings r).numSlots (s.rings r).head ((s'.tasks t).heads r)) :
    Moves s s' := by
  refine ⟨coordinator, rings ▸ inv.rings, fun r => by rw [rings], fun r => by rw [rings],
    fun r id hid => by rwa [rings], fun u hu => ?_, fun u r hc => ?_, fun u hu => ?_,
    fun u hu => ?_⟩
  all_goals by_cases hut : u = t
  · subst hut
    rw [rings]
    exact heads hu
  · rw [rings, (others u hut).1]
    exact hu
  · subst hut
    rw [rings]
    exact copied r hc
  · obtain ⟨htask, hcopying, -⟩ := others u hut
    rw [Copied, htask, hcopying] at hc
    rw [rings, htask]
    exact inv.copied u r hc
  · subst hut
    exact idle hu
  · obtain ⟨htask, hcopying, -⟩ := others u hut
    rw [hcopying] at hu
    rw [htask]
    exact inv.idle u hu
  · subst hut
    exact found hu
  · obtain ⟨htask, -, hfound⟩ := others u hut
    rw [hfound] at hu
    rw [htask]
    exact ⟨hu, inv.found u hu, fun r => Nat.le_refl _⟩

theorem moves_of_advance (inv : s.Inv) {t : Fin nt} {r : Fin nr}
    (active : (s.tasks t).active = true) (ne : (s.tasks t).heads r ≠ (s.rings r).tail) :
    Moves s { s with toSys := s.setTask t ((s.tasks t).advance s.rings r) } := by
  have hholds : (s.tasks t).Holds s.rings := fun q => inv.copied t q (Or.inl active)
  have hadv : ((s.tasks t).advance s.rings r).Holds s.rings := by
    intro q
    by_cases hq : q = r
    · rw [hq]
      exact Task.holds_advance _ (inv.rings r) (hholds r) ne
    · rw [Task.advance]
      dsimp only
      rw [Function.update_of_ne hq]
      exact hholds q
  refine moves_of_task inv t rfl rfl (fun u hu => ⟨Sys.setTask_of_ne _ hu _, rfl, rfl⟩) ?_ ?_ ?_ ?_
  all_goals dsimp only; rw [Sys.setTask_self]
  · exact fun _ => hadv
  · exact fun q _ => hadv q
  · exact inv.idle t
  · refine fun hf => ⟨hf, active, fun q => ?_⟩
    by_cases hq : q = r
    · rw [hq, Task.advance]
      dsimp only
      rw [Function.update_self, (Ring.holds_following (inv.rings r) (hholds r) ne).2]
      exact Nat.le_succ _
    · rw [Task.advance]
      dsimp only
      rw [Function.update_of_ne hq]

theorem moves_of_deactivate (inv : s.Inv) {t : Fin nt} (readersOk : Bool)
    (out : s.copying t = none) :
    Moves s { s with
      toSys := s.setTask t ((s.tasks t).deactivate readersOk).2
      found := Function.update s.found t
        (s.found t && ((s.tasks t).deactivate readersOk).2.active) } := by
  obtain ⟨hheads, hactive⟩ := Task.deactivate_spec readersOk (s.tasks t)
  generalize ((s.tasks t).deactivate readersOk).2 = task at hheads hactive ⊢
  refine moves_of_task inv t rfl rfl
    (fun u hu => ⟨Sys.setTask_of_ne _ hu _, rfl, Function.update_of_ne hu _ _⟩) ?_ ?_ ?_ ?_
  all_goals dsimp only [Copied, Task.Holds]; rw [Sys.setTask_self]
  · rw [hheads]
    exact id
  · intro r hc
    rw [hheads]
    exact inv.copied t r (hc.imp hactive id)
  · exact fun hne => absurd out hne
  · rw [Function.update_self, Bool.and_eq_true, hheads]
    exact fun hf => ⟨hf.1, hf.2, fun r => Nat.le_refl _⟩

/-- A step of `task_activate`: the task is not active before it and relies on no head but those it
has copied. -/
theorem moves_of_copying (inv : s.Inv) {t : Fin nt} {task : Task nr δ}
    {copying : Option (List (Fin nr))} (inactive : (s.tasks t).active = false)
    (heads : (s.tasks t).Holds s.rings → task.Holds s.rings)
    (copied : ∀ r, (task.active = true ∨ ∃ rs, copying = some rs ∧ r ∉ rs) →
      (s.rings r).Holds (task.heads r))
    (idle : copying ≠ none → task.active = false) :
    Moves s { s with
      toSys := s.setTask t task
      copying := Function.update s.copying t copying } := by
  refine moves_of_task inv t rfl rfl
    (fun u hu => ⟨Sys.setTask_of_ne _ hu _, Function.update_of_ne hu _ _, rfl⟩) ?_ ?_ ?_ ?_
  all_goals dsimp only [Copied]; rw [Sys.setTask_self]
  · exact heads
  · rw [Function.update_self]
    exact copied
  · rw [Function.update_self]
    exact idle
  · exact fun hf => nomatch inactive.symm.trans (inv.found t hf)

theorem moves_of_activate (inv : s.Inv) {t : Fin nt} (h : s.activate hooks t = some s') :
    Moves s s' := by
  unfold activate at h
  cases hc : s.copying t with
  | none =>
    rw [hc] at h
    dsimp only at h
    rcases (hooks t).dataWakeup (s.tasks t).data with ⟨woken, data⟩
    split_ifs at h with hidle
    all_goals cases h
    · -- nothing is copied yet
      refine moves_of_copying inv hidle id (fun r hr => ?_) fun _ => hidle
      rcases hr with hact | ⟨rs, hrs, hr⟩
      · cases hidle.symm.trans hact
      · obtain rfl := Option.some.inj hrs
        exact absurd (List.mem_finRange r) hr
    · refine moves_of_copying inv hidle id (fun r hr => ?_) fun _ => hidle
      rcases hr with hact | ⟨rs, hrs, -⟩
      · cases hidle.symm.trans hact
      · cases hrs
  | some rs =>
    have hidle := inv.idle t (by rw [hc]; exact Option.some_ne_none rs)
    rw [hc] at h
    cases rs with
    | nil =>
      cases h
      have hall : ∀ r, (s.rings r).Holds ((s.tasks t).heads r) := fun r =>
        inv.copied t r (Or.inr ⟨[], hc, List.not_mem_nil⟩)
      exact moves_of_copying inv hidle (fun _ => hall) (fun r _ => hall r) fun hne => absurd rfl hne
    | cons q rs =>
      cases h
      have hself : (s.rings q).Holds (s.rings q).head := Ring.holds_head (inv.rings q)
      refine moves_of_copying inv hidle (fun hh r => ?_) (fun r hr => ?_) fun _ => hidle
      all_goals dsimp only
      all_goals by_cases hrq : r = q
      · rw [hrq, Function.update_self]
        exact hself
      · rw [Function.update_of_ne hrq]
        exact hh r
      · rw [hrq, Function.update_self]
        exact hself
      · rw [Function.update_of_ne hrq]
        rcases hr with hact | ⟨rs', hrs, hr⟩
        · cases hidle.symm.trans hact
        · obtain rfl := Option.some.inj hrs
          exact inv.copied t r (Or.inr ⟨_, hc, by simp [hrq, hr]⟩)

/-! ## Steps of the coordinator -/

/-- The coordinator does not move the head of a ring past a head that a task relies on and that
`tasks_get_heads` has not found. -/
def NotPassed (a : ThreadStep nr nt) (s : Threads nr nt δ) : Prop :=
  match a, s.coordinator with
  | .newPkts _, .release _ r newHead _ => ∀ t, s.found t = false → s.Copied t r →
    Circular.dist (s.rings r).numSlots (s.rings r).head newHead ≤
      Circular.dist (s.rings r).numSlots (s.rings r).head ((s.tasks t).heads r)
  | _, _ => True

theorem inv_coordinator (inv : s.Inv) {c : NewPktsAt nr nt}
    (h : { s with coordinator := c }.LocalsOk) : { s with coordinator := c }.Inv :=
  ⟨inv.rings, inv.copied, inv.found, inv.idle, h⟩

/-- After the head of the current task is read, the array has the nearest of the heads so far. -/
theorem low_read (inv : s.Inv) {t : Fin nt} {h : SlowestHeads nr} (r : Fin nr)
    (hholds : (s.rings r).Holds ((s.tasks t).heads r))
    (none : h.updated = false → ∀ u, u ≠ t → s.found u = false)
    (but : h.updated = true → s.Low (· ≠ t) r (h.heads r)) :
    s.Low (fun _ => True) r ((h.read s.rings (s.tasks t) r).heads r) := by
  unfold SlowestHeads.read
  dsimp only
  rw [Function.update_self]
  cases hu : h.updated with
  | false =>
    refine ⟨hholds, fun u hfound _ => ?_⟩
    by_cases hut : u = t
    · rw [hut]
      exact Nat.le_refl _
    · cases (none hu u hut).symm.trans hfound
  | true =>
    obtain ⟨hlow, hle⟩ := but hu
    rw [if_pos rfl, Ring.earlierId_eq (inv.rings r) hlow.lt hholds.lt]
    split_ifs with hcmp
    · refine ⟨hlow, fun u hfound _ => ?_⟩
      by_cases hut : u = t
      · rw [hut]
        exact hcmp
      · exact hle u hfound hut
    · refine ⟨hholds, fun u hfound _ => ?_⟩
      by_cases hut : u = t
      · rw [hut]
      · have := hle u hfound hut
        omega

theorem inv_look (inv : s.Inv) {t : Fin nt} {ts : List (Fin nt)} {h : SlowestHeads nr}
    (at_ : s.coordinator = .look (t :: ts) h) (signalled : Bool) : (s.newPkts signalled).Inv := by
  have locals := inv.locals
  unfold LocalsOk at locals
  rw [at_] at locals
  obtain ⟨hnone, hlow⟩ := locals
  unfold newPkts
  rw [at_]
  dsimp only
  split_ifs with hact
  · have found : ∀ u, Function.update s.found t true u = true → u = t ∨ s.found u = true := by
      intro u hu
      by_cases hut : u = t
      · exact Or.inl hut
      · rw [Function.update_of_ne hut] at hu
        exact Or.inr hu
    refine ⟨inv.rings, inv.copied, fun u hu => ?_, inv.idle, fun r => inv.copied t r (Or.inl hact),
      fun hu u hut => ?_, fun hu r => ⟨(hlow hu r).1, fun u hfound hut => ?_⟩, fun r hr => ?_⟩
    · rcases found u hu with rfl | hfound
      · exact hact
      · exact inv.found u hfound
    · dsimp only
      rw [Function.update_of_ne hut]
      exact hnone hu u
    · exact (hlow hu r).2 u ((found u hfound).resolve_left hut) trivial
    · exact absurd (List.mem_finRange r) hr
  · exact inv_coordinator inv ⟨hnone, hlow⟩

theorem inv_read (inv : s.Inv) {t : Fin nt} {q : Fin nr} {rs : List (Fin nr)} {ts : List (Fin nt)}
    {h : SlowestHeads nr} (at_ : s.coordinator = .read t (q :: rs) ts h) (signalled : Bool) :
    (s.newPkts signalled).Inv := by
  have locals := inv.locals
  unfold LocalsOk at locals
  rw [at_] at locals
  obtain ⟨hholds, hnone, hbut, hall⟩ := locals
  have hq := low_read inv q (hholds q) hnone fun hu => hbut hu q
  have hother : ∀ r, r ≠ q → (h.read s.rings (s.tasks t) q).heads r = h.heads r :=
    fun r hr => Function.update_of_ne hr _ _
  unfold newPkts
  rw [at_]
  refine inv_coordinator inv ⟨hholds, hnone, fun hu r => ?_, fun r hr => ?_⟩
  all_goals by_cases hrq : r = q
  · subst hrq
    exact ⟨hq.1, fun u hfound _ => hq.2 u hfound trivial⟩
  · rw [hother r hrq]
    exact hbut hu r
  · subst hrq
    exact hq
  · rw [hother r hrq]
    exact hall r (by simp [hrq, hr])

theorem inv_choose (inv : s.Inv) {heads : Option (Fin nr → ℕ)} {r : Fin nr} {rs : List (Fin nr)}
    {skipped : Bool} (at_ : s.coordinator = .choose heads (r :: rs) skipped) (signalled : Bool) :
    (s.newPkts signalled).Inv := by
  have locals := inv.locals
  unfold LocalsOk at locals
  rw [at_] at locals
  obtain ⟨hnodup, hheads⟩ := locals
  have hrest : s.HeadsOk heads rs :=
    ⟨hheads.1, fun hs hhs q hq => hheads.2 hs hhs q (List.mem_cons_of_mem _ hq)⟩
  unfold newPkts
  rw [at_]
  dsimp only
  cases hnew : (s.rings r).newHead (heads.map (· r)) with
  | none => exact inv_coordinator inv ⟨(List.nodup_cons.1 hnodup).2, hrest⟩
  | some newHead =>
    refine inv_coordinator inv ⟨hnodup, hrest, ?_⟩
    obtain rfl := Ring.newHead_eq_some hnew
    cases heads with
    | none => exact ⟨Ring.holds_tail (inv.rings r), fun t ht => nomatch (hheads.1 rfl t).symm.trans ht⟩
    | some hs => exact hheads.2 hs rfl r (by simp)

theorem inv_release (inv : s.Inv) {heads : Option (Fin nr → ℕ)} {r : Fin nr} {newHead : ℕ}
    {rs : List (Fin nr)} (at_ : s.coordinator = .release heads r newHead rs) (signalled : Bool)
    (safe : NotPassed (.newPkts signalled) s) : (s.newPkts signalled).Inv := by
  have locals := inv.locals
  unfold LocalsOk at locals
  unfold NotPassed at safe
  rw [at_] at locals safe
  dsimp only at safe
  obtain ⟨hnodup, hheads, hlow⟩ := locals
  have hrel := (Ring.releaseTo_spec newHead (s.rings r)).1
  unfold newPkts
  rw [at_]
  refine ⟨fun q => ?_, fun t q hc => ?_, inv.found, inv.idle, (List.nodup_cons.1 hnodup).2,
    hheads.1, fun hs hhs q hq => ?_⟩
  · by_cases hq : q = r
    · dsimp only
      rw [hq, Sys.moveHead_self]
      exact (Ring.releasedTo_ok hrel (inv.rings r) hlow.1).1
    · dsimp only
      rw [Sys.moveHead_of_ne hq]
      exact inv.rings q
  · have hheld : (s.rings q).Holds ((s.tasks t).heads q) := inv.copied t q hc
    by_cases hq : q = r
    · subst hq
      dsimp only
      rw [Sys.moveHead_self]
      refine Ring.holds_releasedTo hrel (inv.rings q) hlow.1 hheld ?_
      cases hf : s.found t with
      | true => exact hlow.2 t hf trivial
      | false => exact safe t hf hc
    · dsimp only
      rw [Sys.moveHead_of_ne hq]
      exact hheld
  · have hqr : q ≠ r := by
      rintro rfl
      exact (List.nodup_cons.1 hnodup).1 hq
    dsimp only [Low]
    rw [Sys.moveHead_of_ne hqr]
    exact hheads.2 hs hhs q hq

theorem inv_newPkts (inv : s.Inv) (signalled : Bool) (safe : NotPassed (.newPkts signalled) s) :
    (s.newPkts signalled).Inv := by
  have locals := inv.locals
  unfold LocalsOk at locals
  cases at_ : s.coordinator with
  | outside =>
    unfold newPkts
    rw [at_]
    exact ⟨inv.rings, inv.copied, fun _ => Bool.noConfusion, inv.idle, fun _ _ => rfl,
      Bool.noConfusion⟩
  | look ts h =>
    cases ts with
    | nil =>
      rw [at_] at locals
      unfold newPkts
      rw [at_]
      refine inv_coordinator inv ⟨fun hn => locals.1 ?_, fun hs hhs r _ => ?_⟩
      · by_contra hu
        rw [if_pos (by simpa using hu)] at hn
        cases hn
      · split_ifs at hhs with hu
        obtain rfl := Option.some.inj hhs
        exact locals.2 hu r
    | cons t ts => exact inv_look inv at_ signalled
  | read t rs ts h =>
    cases rs with
    | nil =>
      rw [at_] at locals
      unfold newPkts
      rw [at_]
      exact inv_coordinator inv ⟨Bool.noConfusion, fun _ r => locals.2.2.2 r List.not_mem_nil⟩
    | cons q rs => exact inv_read inv at_ signalled
  | wakeup heads =>
    rw [at_] at locals
    unfold newPkts
    rw [at_]
    dsimp only
    split_ifs
    · exact ⟨inv.rings, inv.copied, inv.found, inv.idle, List.nodup_finRange nr, locals⟩
    · exact inv_coordinator inv trivial
  | choose heads rs skipped =>
    cases rs with
    | nil =>
      unfold newPkts
      rw [at_]
      exact ⟨inv.rings, inv.copied, inv.found, inv.idle, trivial⟩
    | cons r rs => exact inv_choose inv at_ signalled
  | release heads r newHead rs => exact inv_release inv at_ signalled safe

/-! ## Every order of steps -/

theorem step_cases {a : ThreadStep nr nt} (inv : s.Inv) (h : step hooks a s = some s') :
    Moves s s' ∨ ∃ signalled, a = .newPkts signalled ∧ s' = s.newPkts signalled := by
  cases a with
  | deliver r pkt =>
    obtain ⟨ring, hring, rfl⟩ := Option.map_eq_some_iff.1 h
    exact Or.inl (moves_of_deliver inv hring)
  | advance t r =>
    rw [step] at h
    split_ifs at h with hcan
    cases h
    exact Or.inl (moves_of_advance inv hcan.1 hcan.2)
  | activate t => exact Or.inl (moves_of_activate inv h)
  | deactivate t readersOk =>
    rw [step] at h
    split_ifs at h with hout
    cases h
    exact Or.inl (moves_of_deactivate inv readersOk hout)
  | newPkts signalled => exact Or.inr ⟨signalled, rfl, (Option.some.inj h).symm⟩

theorem inv_step (a : ThreadStep nr nt) (s s' : Threads nr nt δ) (inv : s.Inv)
    (safe : NotPassed a s) (h : step hooks a s = some s') : s'.Inv := by
  rcases step_cases inv h with m | ⟨signalled, rfl, rfl⟩
  · exact m.inv inv
  · exact inv_newPkts inv signalled safe

/-- A step of the coordinator leaves a ring alone, unless it moves its head. -/
theorem newPkts_rings (signalled : Bool) (r : Fin nr) :
    (s.newPkts signalled).rings r = s.rings r ∨
      ∃ heads newHead rs, s.coordinator = .release heads r newHead rs ∧
        Ring.ReleasedTo (s.rings r) newHead ((s.newPkts signalled).rings r) := by
  unfold newPkts
  cases at_ : s.coordinator with
  | outside => exact Or.inl rfl
  | look ts h =>
    cases ts with
    | nil => exact Or.inl rfl
    | cons t ts =>
      dsimp only
      split_ifs <;> exact Or.inl rfl
  | read t rs ts h => cases rs <;> exact Or.inl rfl
  | wakeup heads =>
    dsimp only
    split_ifs <;> exact Or.inl rfl
  | choose heads rs skipped =>
    cases rs with
    | nil => exact Or.inl rfl
    | cons q rs =>
      dsimp only
      cases (s.rings q).newHead (heads.map (· q)) <;> exact Or.inl rfl
  | release heads q newHead rs =>
    by_cases hrq : r = q
    · subst hrq
      refine Or.inr ⟨heads, newHead, rs, rfl, ?_⟩
      dsimp only
      rw [Sys.moveHead_self]
      exact (Ring.releaseTo_spec newHead (s.rings r)).1
    · exact Or.inl (Sys.moveHead_of_ne hrq _ _)

/-- The head of a ring moves to a slot between the head and the tail. -/
theorem holds_step {a : ThreadStep nr nt} (inv : s.Inv) (h : step hooks a s = some s')
    (r : Fin nr) : (s.rings r).Holds (s'.rings r).head := by
  rcases step_cases inv h with m | ⟨signalled, rfl, rfl⟩
  · rw [m.head r]
    exact Ring.holds_head (inv.rings r)
  · rcases newPkts_rings signalled r with hring | ⟨heads, newHead, rs, at_, hrel⟩
    · rw [hring]
      exact Ring.holds_head (inv.rings r)
    · have locals := inv.locals
      unfold LocalsOk at locals
      rw [at_] at locals
      rw [hrel.head]
      exact locals.2.2.1

/-- No slot is released that an active task has still to read. -/
theorem past_step {a : ThreadStep nr nt} (inv : s.Inv) (safe : NotPassed a s)
    (h : step hooks a s = some s') {t : Fin nt} (active : (s.tasks t).active = true) (r : Fin nr) :
    Circular.dist (s.rings r).numSlots (s.rings r).head (s'.rings r).head ≤
      Circular.dist (s.rings r).numSlots (s.rings r).head ((s.tasks t).heads r) := by
  have hsame : (s'.rings r).head = (s.rings r).head →
      Circular.dist (s.rings r).numSlots (s.rings r).head (s'.rings r).head ≤
        Circular.dist (s.rings r).numSlots (s.rings r).head ((s.tasks t).heads r) := fun he => by
    rw [he, Circular.dist_self]
    exact Nat.zero_le _
  rcases step_cases inv h with m | ⟨signalled, rfl, rfl⟩
  · exact hsame (m.head r)
  · rcases newPkts_rings signalled r with hring | ⟨heads, newHead, rs, at_, hrel⟩
    · exact hsame (by rw [hring])
    · have locals := inv.locals
      unfold LocalsOk at locals
      unfold NotPassed at safe
      rw [at_] at locals safe
      rw [hrel.head]
      cases hf : s.found t with
      | true => exact locals.2.2.2 t hf trivial
      | false => exact safe t hf (Or.inl active)

/-- Whatever the order of the threads' steps, the heads of the active tasks lie between the heads
and the tails of the rings, as long as no release passes a task that has not been found. -/
theorem active_held_of_notPassed (hooks : Fin nt → Hooks nr δ) {steps : List (ThreadStep nr nt)}
    {s s' : Threads nr nt δ} (start : s.Start) (safe : Runs.Along (step hooks) NotPassed steps s)
    (h : Runs.run (step hooks) steps s = some s') :
    (∀ t, (s'.tasks t).active = true → (s'.tasks t).Holds s'.rings) ∧
      (∀ a s'', step hooks a s' = some s'' → ∀ r, (s'.rings r).Holds (s''.rings r).head) ∧
      ∀ a s'', NotPassed a s' → step hooks a s' = some s'' →
        ∀ t, (s'.tasks t).active = true → ∀ r,
          Circular.dist (s'.rings r).numSlots (s'.rings r).head (s''.rings r).head ≤
            Circular.dist (s'.rings r).numSlots (s'.rings r).head ((s'.tasks t).heads r) := by
  have inv : s'.Inv := Runs.invariant_of_along inv_step (inv_of_start start) safe h
  refine ⟨fun t ht r => inv.copied t r (Or.inl ht), fun a s'' hstep => holds_step inv hstep, ?_⟩
  exact fun a s'' hsafe hstep t ht r => past_step inv hsafe hstep ht r

/-- A release that passes the head of a task costs it packets: once the task is active, its head is
before the head of the ring. -/
theorem exists_not_held_of_passed (hooks : Fin nt → Hooks nr δ) (inv : s.Inv)
    {heads : Option (Fin nr → ℕ)} {r : Fin nr} {newHead : ℕ} {rs : List (Fin nr)}
    (at_ : s.coordinator = .release heads r newHead rs) {t : Fin nt} (relies : s.Copied t r)
    (passed : Circular.dist (s.rings r).numSlots (s.rings r).head ((s.tasks t).heads r) <
      Circular.dist (s.rings r).numSlots (s.rings r).head newHead) :
    ∃ s', Leads hooks (.activate t) (s.newPkts true) s' ∧ (s'.tasks t).active = true ∧
      ¬ (s'.tasks t).Holds s'.rings := by
  have locals := inv.locals
  unfold LocalsOk at locals
  rw [at_] at locals
  have hnext : s.newPkts true = ⟨s.moveHead r newHead, .choose heads rs false, s.copying, s.found⟩ := by
    unfold newPkts
    rw [at_]
  have hnot : ¬ ((s.moveHead r newHead).rings r).Holds ((s.tasks t).heads r) := by
    rw [Sys.moveHead_self]
    exact Ring.not_holds_releasedTo (Ring.releaseTo_spec newHead (s.rings r)).1 (inv.rings r)
      locals.2.2.1 passed
  rw [hnext]
  rcases relies with hact | ⟨rs', hrs, hr⟩
  · exact ⟨_, Leads.refl _, hact, fun hh => hnot (hh r)⟩
  · refine ⟨_, leads_copied hooks (s.moveHead r newHead) s.copying s.found t
      (.choose heads rs false) rs' hrs, ?_, fun hh => hnot ?_⟩
    · rw [Sys.setTask_self]
    · have hr' := hh r
      rw [Sys.setTask_self] at hr'
      dsimp only at hr'
      rwa [if_neg hr] at hr'

/-! ## A call without activations -/

/-- No task is in `task_activate`, and the active tasks that the coordinator has looked at are
found. -/
def Calm (s : Threads nr nt δ) : Prop :=
  (∀ t, s.copying t = none) ∧ ∀ t, (s.tasks t).active = true →
    match s.coordinator with
    | .outside => True
    | .look ts _ => s.found t = true ∨ t ∈ ts
    | .read _ _ ts _ => s.found t = true ∨ t ∈ ts
    | _ => s.found t = true

theorem calm_newPkts (signalled : Bool) (calm : s.Calm) : (s.newPkts signalled).Calm := by
  obtain ⟨out, found⟩ := calm
  unfold newPkts
  cases at_ : s.coordinator with
  | outside => exact ⟨out, fun t _ => Or.inr (List.mem_finRange t)⟩
  | look ts h =>
    rw [at_] at found
    cases ts with
    | nil => exact ⟨out, fun t ht => (found t ht).resolve_right List.not_mem_nil⟩
    | cons u ts =>
      dsimp only
      split_ifs with hact
      · refine ⟨out, fun t ht => ?_⟩
        dsimp only
        by_cases htu : t = u
        · rw [htu, Function.update_self]
          exact Or.inl rfl
        · rw [Function.update_of_ne htu]
          exact (found t ht).imp_right fun hmem => (List.mem_cons.1 hmem).resolve_left htu
      · refine ⟨out, fun t ht => (found t ht).imp_right fun hmem => ?_⟩
        rcases List.mem_cons.1 hmem with rfl | hmem
        · exact absurd ht hact
        · exact hmem
  | read u rs ts h =>
    rw [at_] at found
    cases rs <;> exact ⟨out, found⟩
  | wakeup heads =>
    rw [at_] at found
    dsimp only
    split_ifs
    · exact ⟨out, found⟩
    · exact ⟨out, fun _ _ => trivial⟩
  | choose heads rs skipped =>
    rw [at_] at found
    cases rs with
    | nil => exact ⟨out, fun _ _ => trivial⟩
    | cons r rs =>
      dsimp only
      cases (s.rings r).newHead (heads.map (· r)) <;> exact ⟨out, found⟩
  | release heads r newHead rs =>
    rw [at_] at found
    exact ⟨out, found⟩

theorem notPassed_of_calm (signalled : Bool) (calm : s.Calm) : NotPassed (.newPkts signalled) s := by
  obtain ⟨out, found⟩ := calm
  unfold NotPassed
  cases at_ : s.coordinator with
  | release heads r newHead rs =>
    intro t hf hc
    rw [at_] at found
    rcases hc with hact | ⟨rs', hrs, -⟩
    · cases hf.symm.trans (found t hact)
    · cases (out t).symm.trans hrs
  | outside | look ts h | read u rs ts h | wakeup heads | choose heads rs skipped => trivial

/-- A call of the coordinator that no activation comes between releases no slot too early. -/
theorem along_of_calm (calm : s.Calm) (k : ℕ) :
    Runs.Along (step hooks) NotPassed (List.replicate k (.newPkts true)) s := by
  refine Runs.along_of_invariant (fun a ha s s' hs h => ?_) (fun a ha s hs => ?_) calm
  all_goals obtain rfl := List.eq_of_mem_replicate ha
  · obtain rfl := Option.some.inj h
    exact calm_newPkts true hs
  · exact notPassed_of_calm true hs

/-! ## The race -/

/-- The small system, with its threads outside of all calls. -/
def sample : Threads 1 1 Unit where
  toSys := Sys.sample
  coordinator := .outside
  copying := fun _ => none
  found := fun _ => false

theorem sample_start : sample.Start :=
  ⟨Sys.sample_ok, fun _ => rfl, rfl, fun _ => rfl, fun _ => rfl⟩

/-- The task is activated after `tasks_get_heads` has looked at it and before the release of the two
packets that have arrived. -/
def race : List (ThreadStep 1 1) :=
  [.deliver Sys.sole (Sys.samplePkt 1), .deliver Sys.sole (Sys.samplePkt 2), .newPkts true,
    .newPkts true, .newPkts true, .activate Sys.sole, .activate Sys.sole, .activate Sys.sole,
    .newPkts true, .newPkts true, .newPkts true]

theorem not_active_held :
    ¬ ∀ steps s', Runs.run (step (Sys.sampleHooks .zero)) steps sample = some s' →
      ∀ t, (s'.tasks t).active = true → (s'.tasks t).Holds s'.rings := by
  intro h
  have hrun : Runs.run (step (Sys.sampleHooks .zero)) race sample = some _ := rfl
  have hholds := (h race _ hrun 0 rfl 0).le
  exact absurd hholds (by decide)

/-- The task is activated and reads one of two packets. -/
def readOne : List (ThreadStep 1 1) :=
  [.activate Sys.sole, .activate Sys.sole, .activate Sys.sole, .deliver Sys.sole (Sys.samplePkt 1),
    .deliver Sys.sole (Sys.samplePkt 2), .advance Sys.sole Sys.sole]

theorem active_held_of_notPassed_calm :
    ∃ s', Runs.run (step (Sys.sampleHooks .zero))
        (readOne ++ List.replicate 8 (.newPkts true)) sample = some s' ∧
      (s'.rings 0).head = 1 ∧ (s'.tasks 0).active = true ∧ (s'.tasks 0).Holds s'.rings := by
  have hrun : Runs.run (step (Sys.sampleHooks .zero))
      (readOne ++ List.replicate 8 (.newPkts true)) sample = some _ := rfl
  obtain ⟨s₁, hread, outside, out⟩ : ∃ s₁,
      Runs.run (step (Sys.sampleHooks .zero)) readOne sample = some s₁ ∧
        s₁.coordinator = .outside ∧ s₁.copying 0 = none := ⟨_, rfl, rfl, rfl⟩
  have calm : s₁.Calm := by
    refine ⟨fun t => ?_, fun t _ => by rw [outside]; trivial⟩
    obtain rfl : t = 0 := Subsingleton.elim t 0
    exact out
  have safe : Runs.Along (step (Sys.sampleHooks .zero)) NotPassed
      (readOne ++ List.replicate 8 (.newPkts true)) sample := by
    refine Runs.along_append (Runs.along_of_forall (fun a ha s => ?_) sample) fun s' hs' => ?_
    · simp only [readOne, List.mem_cons, List.not_mem_nil, or_false] at ha
      rcases ha with rfl | rfl | rfl | rfl | rfl | rfl <;> trivial
    · obtain rfl := Option.some.inj (hread.symm.trans hs')
      exact along_of_calm calm 8
  exact ⟨_, hrun, rfl, rfl, (active_held_of_notPassed _ sample_start safe hrun).1 0 rfl⟩

end Threads

end Tesd
