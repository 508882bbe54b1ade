import Tesd.Coordinator
import Tesd.Wakeup

/-!
# The coordinator releases slots that every active task is past

In every reachable state the heads of the active tasks lie between the head and the tail of their
rings (`Sys.Ok`).  A call of `s_new_pkts_hn` moves the head of each ring to the nearest of them, or
to the tail.  Over a run each ring is a queue: the packets released and the packets that are left
are the packets delivered, in their order.
-/

namespace Tesd

variable {nr nt : ℕ} {δ : Type}

/-! ## The slowest task -/

namespace SlowestHeads

variable {rings : Fin nr → Ring} {task : Task nr δ} {h : SlowestHeads nr}

theorem foldl_read (l : List (Fin nr)) (nodup : l.Nodup) (h : SlowestHeads nr) :
    (l.foldl (fun h r => h.read rings task r) h).updated = h.updated ∧
      ∀ r, (l.foldl (fun h r => h.read rings task r) h).heads r =
        if r ∈ l then
          if h.updated then (rings r).earlierId (h.heads r) (task.heads r) else task.heads r
        else h.heads r := by
  induction l generalizing h with
  | nil => exact ⟨rfl, fun r => rfl⟩
  | cons q l ih =>
    rw [List.nodup_cons] at nodup
    obtain ⟨hupd, hheads⟩ := ih nodup.2 (h.read rings task q)
    refine ⟨hupd, fun r => ?_⟩
    rw [List.foldl_cons, hheads]
    by_cases hr : r = q
    · subst hr
      simp [nodup.1, read]
    · simp [hr, read]

theorem look_of_active (rings : Fin nr → Ring) (h : SlowestHeads nr) (active : task.active = true) :
    (h.look rings task).updated = true ∧
      ∀ r, (h.look rings task).heads r =
        if h.updated then (rings r).earlierId (h.heads r) (task.heads r) else task.heads r := by
  rw [look, if_pos active]
  refine ⟨rfl, fun r => ?_⟩
  rw [(foldl_read (List.finRange nr) (List.nodup_finRange nr) h).2 r,
    if_pos (List.mem_finRange r)]

/-- The array holds, for every ring, the nearest of the heads of the active tasks so far. -/
def Nearest (rings : Fin nr → Ring) (tasks : List (Task nr δ)) (h : SlowestHeads nr) : Prop :=
  (h.updated = false ∧ ∀ task ∈ tasks, task.active = false) ∨
    (h.updated = true ∧ ∀ r, ∃ task ∈ tasks, task.active = true ∧ h.heads r = task.heads r ∧
      ∀ u ∈ tasks, u.active = true →
        Circular.dist (rings r).numSlots (rings r).head (h.heads r) ≤
          Circular.dist (rings r).numSlots (rings r).head (u.heads r))

theorem nearest_look {tasks : List (Task nr δ)} (ok : ∀ r, (rings r).Ok)
    (lt : ∀ u ∈ task :: tasks, u.active = true → ∀ r, u.heads r < (rings r).numSlots)
    (near : Nearest rings tasks h) : Nearest rings (tasks ++ [task]) (h.look rings task) := by
  cases active : task.active with
  | false =>
    rw [look, active, if_neg (by decide)]
    rcases near with ⟨hupd, hnone⟩ | ⟨hupd, hsome⟩
    · refine Or.inl ⟨hupd, fun u hu => ?_⟩
      rcases List.mem_append.1 hu with hu | hu
      · exact hnone u hu
      · rwa [List.mem_singleton.1 hu]
    · refine Or.inr ⟨hupd, fun r => ?_⟩
      obtain ⟨v, hv, hact, heq, hle⟩ := hsome r
      refine ⟨v, List.mem_append_left _ hv, hact, heq, fun u hu hua => ?_⟩
      rcases List.mem_append.1 hu with hu | hu
      · exact hle u hu hua
      · rw [List.mem_singleton.1 hu, active] at hua
        cases hua
  | true =>
    obtain ⟨hupd', hheads⟩ := look_of_active rings h active
    refine Or.inr ⟨hupd', fun r => ?_⟩
    rw [hheads r]
    rcases near with ⟨hupd, hnone⟩ | ⟨hupd, hsome⟩
    · rw [hupd, if_neg (by decide)]
      refine ⟨task, by simp, active, rfl, fun u hu hua => ?_⟩
      rcases List.mem_append.1 hu with hu | hu
      · rw [hnone u hu] at hua
        cases hua
      · rw [List.mem_singleton.1 hu]
    · rw [hupd, if_pos rfl]
      obtain ⟨v, hv, hact, heq, hle⟩ := hsome r
      have hvlt := lt v (List.mem_cons_of_mem _ hv) hact r
      have htlt := lt task (by simp) active r
      rw [Ring.earlierId_eq (ok r) (heq ▸ hvlt) htlt]
      split_ifs with hcmp
      · refine ⟨v, List.mem_append_left _ hv, hact, heq, fun u hu hua => ?_⟩
        rcases List.mem_append.1 hu with hu | hu
        · exact hle u hu hua
        · rwa [List.mem_singleton.1 hu]
      · refine ⟨task, by simp, active, rfl, fun u hu hua => ?_⟩
        rcases List.mem_append.1 hu with hu | hu
        · have := hle u hu hua
          omega
        · rw [List.mem_singleton.1 hu]

theorem nearest_foldl (ok : ∀ r, (rings r).Ok) (tasks done : List (Task nr δ))
    (lt : ∀ u ∈ done ++ tasks, u.active = true → ∀ r, u.heads r < (rings r).numSlots)
    (near : Nearest rings done h) : Nearest rings (done ++ tasks) (tasks.foldl (look rings) h) := by
  induction tasks generalizing done h with
  | nil => simpa using near
  | cons task tasks ih =>
    have hlt : ∀ u ∈ task :: done, u.active = true → ∀ r, u.heads r < (rings r).numSlots :=
      fun u hu => lt u (by rcases List.mem_cons.1 hu with rfl | hu <;> simp [*])
    have near' := nearest_look ok hlt near
    have := ih (done ++ [task]) (by simpa using lt) near'
    simpa using this

end SlowestHeads

/-- The heads that `tasks_get_heads` finds are the nearest ones of the active tasks. -/
theorem tasksGetHeads_spec {rings : Fin nr → Ring} {tasks : List (Task nr δ)}
    (ok : ∀ r, (rings r).Ok)
    (lt : ∀ u ∈ tasks, u.active = true → ∀ r, u.heads r < (rings r).numSlots) :
    (tasksGetHeads rings tasks = none ∧ ∀ task ∈ tasks, task.active = false) ∨
      ∃ heads, tasksGetHeads rings tasks = some heads ∧
        ∀ r, ∃ task ∈ tasks, task.active = true ∧ heads r = task.heads r ∧
          ∀ u ∈ tasks, u.active = true →
            Circular.dist (rings r).numSlots (rings r).head (heads r) ≤
              Circular.dist (rings r).numSlots (rings r).head (u.heads r) := by
  have near := SlowestHeads.nearest_foldl (h := ⟨fun _ => 0, false⟩) ok tasks []
    lt (Or.inl ⟨rfl, by simp⟩)
  rw [List.nil_append] at near
  unfold tasksGetHeads
  rcases near with ⟨hupd, hnone⟩ | ⟨hupd, hsome⟩
  · exact Or.inl ⟨by simp only [hupd]; rfl, hnone⟩
  · exact Or.inr ⟨_, by simp only [hupd]; rfl, hsome⟩

/-! ## One ring -/

namespace Ring

/-- The ring after its turn in `s_new_pkts_hn`. -/
def released (head : Option ℕ) (ring : Ring) : Ring :=
  match ring.newHead head with
  | none => ring
  | some newHead => (ring.releaseTo newHead).2.2

/-- The packets counted in its turn. -/
def numNew (head : Option ℕ) (ring : Ring) : ℕ :=
  match ring.newHead head with
  | none => 0
  | some newHead => (ring.releaseTo newHead).1

/-- What a release to `newHead` does to a ring. -/
structure ReleasedTo (ring : Ring) (newHead : ℕ) (ring' : Ring) : Prop where
  head : ring'.head = newHead
  numSlots : ring'.numSlots = ring.numSlots
  tail : ring'.tail = ring.tail
  slot : ring'.slot = ring.slot

variable {ring ring' : Ring} {head : Option ℕ} {newHead id : ℕ}

theorem releaseTo_spec (newHead : ℕ) (ring : Ring) :
    ReleasedTo ring newHead (ring.releaseTo newHead).2.2 ∧
      (ring.releaseTo newHead).1 = Circular.dist ring.numSlots ring.head newHead :=
  ⟨⟨rfl, rfl, rfl, rfl⟩, rfl⟩

/-- A ring whose head stays has no slot to release. -/
theorem newHead_eq_none (ok : ring.Ok) (holds : ∀ h, head = some h → ring.Holds h)
    (h : ring.newHead head = none) : head.getD ring.tail = ring.head := by
  unfold newHead at h
  dsimp only at h
  split_ifs at h with hempty hsame
  · -- an empty ring has no other slot to release to
    cases head with
    | none => exact hempty
    | some h =>
      have hle := (holds h rfl).le
      rw [pending, hempty, Circular.dist_self] at hle
      exact ((Circular.dist_eq_zero ok.head).1 (Nat.le_zero.1 hle)).symm
  · exact hsame

theorem newHead_eq_some (h : ring.newHead head = some newHead) :
    newHead = head.getD ring.tail := by
  unfold Ring.newHead at h
  dsimp only at h
  split_ifs at h
  exact (Option.some.inj h).symm

theorem released_spec (ok : ring.Ok) (holds : ∀ h, head = some h → ring.Holds h) :
    ReleasedTo ring (head.getD ring.tail) (ring.released head) ∧
      ring.numNew head = Circular.dist ring.numSlots ring.head (head.getD ring.tail) := by
  unfold released numNew
  cases hnew : ring.newHead head with
  | none =>
    have hsame := newHead_eq_none ok holds hnew
    exact ⟨⟨hsame.symm, rfl, rfl, rfl⟩, by rw [hsame, Circular.dist_self]⟩
  | some id =>
    obtain rfl := newHead_eq_some hnew
    exact releaseTo_spec _ ring

theorem releasedTo_ok (h : ReleasedTo ring newHead ring') (ok : ring.Ok)
    (holds : ring.Holds newHead) :
    ring'.Ok ∧ ring'.pending + Circular.dist ring.numSlots ring.head newHead = ring.pending := by
  have hle := holds.le
  unfold pending at hle ⊢
  refine ⟨⟨by rw [h.head, h.numSlots]; exact holds.lt, by rw [h.tail, h.numSlots]; exact ok.tail⟩, ?_⟩
  rw [h.head, h.numSlots, h.tail, Circular.dist_of_le ok.head ok.tail holds.lt hle]
  omega

/-- The packets released and the packets left are the packets there were. -/
theorem queue_releasedTo (h : ReleasedTo ring newHead ring') (ok : ring.Ok)
    (holds : ring.Holds newHead) : ring.between ring.head newHead ++ ring'.queue = ring.queue := by
  rw [← between_append ok holds, queue, between, between, between, h.head, h.numSlots, h.tail, h.slot]

/-- A slot that is not before the new head still lies between the head and the tail. -/
theorem holds_releasedTo (h : ReleasedTo ring newHead ring') (ok : ring.Ok)
    (new : ring.Holds newHead) (holds : ring.Holds id)
    (le : Circular.dist ring.numSlots ring.head newHead ≤
      Circular.dist ring.numSlots ring.head id) : ring'.Holds id := by
  have hpend := (releasedTo_ok h ok new).2
  refine ⟨by rw [h.numSlots]; exact holds.lt, ?_⟩
  rw [h.head, h.numSlots, Circular.dist_of_le ok.head holds.lt new.lt le]
  have := holds.le
  omega

/-- A slot before the new head does not. -/
theorem not_holds_releasedTo (h : ReleasedTo ring newHead ring') (ok : ring.Ok)
    (new : ring.Holds newHead)
    (lt : Circular.dist ring.numSlots ring.head id <
      Circular.dist ring.numSlots ring.head newHead) : ¬ ring'.Holds id := by
  intro hid
  have hle := hid.le
  have hpend := (releasedTo_ok h ok new).2
  have hturn := Circular.dist_of_lt ok.head new.lt lt
  have hlt : ring.pending < ring.numSlots := Circular.dist_lt ok.head ok.tail
  rw [h.head, h.numSlots] at hle
  omega

end Ring

/-! ## A call of the coordinator -/

namespace Sys

/-- The heads of the active tasks lie between the head and the tail of each ring. -/
structure Ok (s : Sys nr nt δ) : Prop where
  rings : ∀ r, (s.rings r).Ok
  heads : ∀ t, (s.tasks t).active = true → (s.tasks t).Holds s.rings

theorem foldl_releaseRing (heads : Option (Fin nr → ℕ)) (l : List (Fin nr)) (nodup : l.Nodup)
    (p : Sys nr nt δ × Bool) :
    ((l.foldl (releaseRing heads) p).1.tasks = p.1.tasks ∧
        (l.foldl (releaseRing heads) p).1.ended = p.1.ended) ∧
      (∀ r, (l.foldl (releaseRing heads) p).1.rings r =
        if r ∈ l then (p.1.rings r).released (heads.map (· r)) else p.1.rings r) ∧
      (l.foldl (releaseRing heads) p).1.latest.received =
        p.1.latest.received + (l.map fun r => (p.1.rings r).numNew (heads.map (· r))).sum := by
  induction l generalizing p with
  | nil => exact ⟨⟨rfl, rfl⟩, fun r => rfl, rfl⟩
  | cons q l ih =>
    rw [List.nodup_cons] at nodup
    obtain ⟨⟨htasks, hended⟩, hrings, hreceived⟩ := ih nodup.2 (releaseRing heads p q)
    have hq : ((releaseRing heads p q).1.tasks = p.1.tasks ∧
        (releaseRing heads p q).1.ended = p.1.ended) ∧
        (∀ r, (releaseRing heads p q).1.rings r =
          if r = q then (p.1.rings r).released (heads.map (· r)) else p.1.rings r) ∧
        (releaseRing heads p q).1.latest.received =
          p.1.latest.received + (p.1.rings q).numNew (heads.map (· q)) := by
      unfold releaseRing Ring.released Ring.numNew
      cases hrel : (p.1.rings q).newHead (heads.map (· q)) with
      | none =>
        refine ⟨⟨rfl, rfl⟩, fun r => ?_, rfl⟩
        by_cases hr : r = q
        · subst hr
          rw [if_pos rfl, hrel]
        · rw [if_neg hr]
      | some newHead =>
        refine ⟨⟨rfl, rfl⟩, fun r => ?_, rfl⟩
        by_cases hr : r = q
        · subst hr
          rw [if_pos rfl, hrel]
          exact Function.update_self _ _ _
        · rw [if_neg hr]
          exact Function.update_of_ne hr _ _
    obtain ⟨⟨qtasks, qended⟩, qrings, qreceived⟩ := hq
    refine ⟨⟨htasks.trans qtasks, hended.trans qended⟩, fun r => ?_, ?_⟩
    · rw [List.foldl_cons, hrings r, qrings r]
      by_cases hr : r = q
      · subst hr
        simp [nodup.1]
      · simp [hr]
    · have hmap : l.map (fun r => ((releaseRing heads p q).1.rings r).numNew (heads.map (· r))) =
          l.map fun r => (p.1.rings r).numNew (heads.map (· r)) := by
        refine List.map_congr_left fun r hr => ?_
        have hne : r ≠ q := fun he => nodup.1 (he ▸ hr)
        rw [qrings r, if_neg hne]
      rw [List.foldl_cons, hreceived, qreceived, hmap, List.map_cons, List.sum_cons]
      omega

/-- The heads that a call of `s_new_pkts_hn` releases to. -/
def slowest (s : Sys nr nt δ) : Option (Fin nr → ℕ) := tasksGetHeads s.rings s.taskList

/-- The ring's slot that is nearest to its head among the heads of the active tasks, or its tail if
no task is active. -/
def NearestHead (s : Sys nr nt δ) (r : Fin nr) (id : ℕ) : Prop :=
  ((∀ t, (s.tasks t).active = false) ∧ id = (s.rings r).tail) ∨
    ∃ t, (s.tasks t).active = true ∧ id = (s.tasks t).heads r ∧
      ∀ u, (s.tasks u).active = true →
        Circular.dist (s.rings r).numSlots (s.rings r).head id ≤
          Circular.dist (s.rings r).numSlots (s.rings r).head ((s.tasks u).heads r)

variable {s : Sys nr nt δ}

theorem mem_taskList {task : Task nr δ} : task ∈ s.taskList ↔ ∃ t, s.tasks t = task := by
  simp [taskList]

theorem slowest_spec (ok : s.Ok) (r : Fin nr) :
    s.NearestHead r ((s.slowest.map (· r)).getD (s.rings r).tail) := by
  have hlt : ∀ u ∈ s.taskList, u.active = true → ∀ r, u.heads r < (s.rings r).numSlots := by
    intro u hu hua r
    obtain ⟨t, rfl⟩ := mem_taskList.1 hu
    exact (ok.heads t hua r).lt
  rcases tasksGetHeads_spec ok.rings hlt with ⟨hnone, hall⟩ | ⟨heads, hsome, hall⟩
  · refine Or.inl ⟨fun t => hall _ (mem_taskList.2 ⟨t, rfl⟩), ?_⟩
    rw [slowest, hnone]
    rfl
  · obtain ⟨task, hmem, hact, heq, hle⟩ := hall r
    obtain ⟨t, rfl⟩ := mem_taskList.1 hmem
    refine Or.inr ⟨t, hact, ?_, fun u hua => ?_⟩
    · rw [slowest, hsome]
      exact heq
    · rw [slowest, hsome]
      exact hle _ (mem_taskList.2 ⟨u, rfl⟩) hua

theorem nearestHead_holds (ok : s.Ok) {r : Fin nr} {id : ℕ} (near : s.NearestHead r id) :
    (s.rings r).Holds id := by
  rcases near with ⟨-, rfl⟩ | ⟨t, hact, rfl, -⟩
  · exact Ring.holds_tail (ok.rings r)
  · exact ok.heads t hact r

/-- The number of slots by which the heads of the rings differ. -/
def slotsBetween (s s' : Sys nr nt δ) : ℕ :=
  ((List.finRange nr).map fun r => Circular.dist (s.rings r).numSlots (s.rings r).head
    (s'.rings r).head).sum

/-- What a call of `s_new_pkts_hn` does. -/
structure Released (s s' : Sys nr nt δ) : Prop where
  tasks : s'.tasks = s.tasks
  ended : s'.ended = s.ended
  rings : ∀ r, ∃ newHead, s.NearestHead r newHead ∧
    Ring.ReleasedTo (s.rings r) newHead (s'.rings r)
  received : s'.latest.received = s.latest.received + slotsBetween s s'

theorem newPktsHn_spec (ok : s.Ok) : Released s (s.newPktsHn true).2 := by
  have hfold := foldl_releaseRing s.slowest (List.finRange nr) (List.nodup_finRange nr)
    ({ s with latest := { s.latest with polled := s.latest.polled + 1 } }, true)
  have hnew : ∃ latest, (s.newPktsHn true).2 =
      { ((List.finRange nr).foldl (releaseRing s.slowest)
        ({ s with latest := { s.latest with polled := s.latest.polled + 1 } }, true)).1 with
        latest := latest } ∧
      latest.received = ((List.finRange nr).foldl (releaseRing s.slowest)
        ({ s with latest := { s.latest with polled := s.latest.polled + 1 } }, true)).1.latest.received := by
    unfold newPktsHn slowest
    dsimp only
    rw [Bool.not_true, if_neg (by decide)]
    split_ifs <;> exact ⟨_, rfl, rfl⟩
  obtain ⟨latest, hnew, hlatest⟩ := hnew
  generalize (List.finRange nr).foldl (releaseRing s.slowest)
    ({ s with latest := { s.latest with polled := s.latest.polled + 1 } }, true) = p
    at hfold hnew hlatest
  obtain ⟨⟨htasks, hended⟩, hrings, hreceived⟩ := hfold
  rw [hnew]
  have hrel : ∀ r, Ring.ReleasedTo (s.rings r) ((s.slowest.map (· r)).getD (s.rings r).tail)
      (p.1.rings r) ∧ (s.rings r).numNew (s.slowest.map (· r)) =
        Circular.dist (s.rings r).numSlots (s.rings r).head
          ((s.slowest.map (· r)).getD (s.rings r).tail) := fun r => by
    have hholds := nearestHead_holds ok (slowest_spec ok r)
    rw [hrings r, if_pos (List.mem_finRange r)]
    refine Ring.released_spec (ok.rings r) fun h hh => ?_
    rwa [hh] at hholds
  refine ⟨htasks, hended, fun r => ⟨_, slowest_spec ok r, (hrel r).1⟩, ?_⟩
  show latest.received = _
  rw [hlatest, hreceived, slotsBetween]
  congr 2
  refine List.map_congr_left fun r _ => ?_
  rw [(hrel r).1.head]
  exact (hrel r).2

theorem ok_released {s' : Sys nr nt δ} (ok : s.Ok) (h : Released s s') : s'.Ok := by
  refine ⟨fun r => ?_, fun t hact r => ?_⟩
  · obtain ⟨newHead, near, hrel⟩ := h.rings r
    exact (Ring.releasedTo_ok hrel (ok.rings r) (nearestHead_holds ok near)).1
  · rw [h.tasks] at hact ⊢
    obtain ⟨newHead, near, hrel⟩ := h.rings r
    refine Ring.holds_releasedTo hrel (ok.rings r) (nearestHead_holds ok near) (ok.heads t hact r) ?_
    rcases near with ⟨hnone, -⟩ | ⟨-, -, -, hle⟩
    · rw [hnone t] at hact
      cases hact
    · exact hle t hact

/-! ## Every action -/

/-- The heads of the rings move forward only, up to the tails and up to the heads of the active
tasks. -/
structure Forward (s s' : Sys nr nt δ) : Prop where
  numSlots : ∀ r, (s'.rings r).numSlots = (s.rings r).numSlots
  head : ∀ r, (s.rings r).Holds (s'.rings r).head
  past : ∀ t, (s.tasks t).active = true → ∀ r,
    Circular.dist (s.rings r).numSlots (s.rings r).head (s'.rings r).head ≤
      Circular.dist (s.rings r).numSlots (s.rings r).head ((s.tasks t).heads r)

/-- The packet that an action adds to a ring. -/
def delivered (r : Fin nr) (a : Action nr nt δ) (_ : Sys nr nt δ) : List Slot :=
  match a with
  | .deliver q pkt => if q = r then [pkt] else []
  | _ => []

/-- What one action does to the rings. -/
structure Stepped (a : Action nr nt δ) (s s' : Sys nr nt δ) : Prop extends Forward s s' where
  ok : s'.Ok
  queue : ∀ r, (s.rings r).between (s.rings r).head (s'.rings r).head ++ (s'.rings r).queue =
    (s.rings r).queue ++ delivered r a s
  received : s'.latest.received = s.latest.received + slotsBetween s s'

variable {s' : Sys nr nt δ} {a : Action nr nt δ}

theorem slotsBetween_of_head (h : ∀ r, (s'.rings r).head = (s.rings r).head) :
    slotsBetween s s' = 0 := by
  simp [slotsBetween, h]

theorem forward_of_head (ok : s.Ok) (numSlots : ∀ r, (s'.rings r).numSlots = (s.rings r).numSlots)
    (h : ∀ r, (s'.rings r).head = (s.rings r).head) : Forward s s' := by
  refine ⟨numSlots, fun r => ?_, fun t _ r => ?_⟩
  · rw [h r]
    exact Ring.holds_head (ok.rings r)
  · rw [h r, Circular.dist_self]
    exact Nat.zero_le _

/-- An action of a task leaves the rings alone. -/
theorem stepped_of_task (ok : s.Ok) (quiet : ∀ r, delivered r a s = [])
    (rings : s'.rings = s.rings) (latest : s'.latest = s.latest)
    (heads : ∀ t, (s'.tasks t).active = true → (s'.tasks t).Holds s.rings) : Stepped a s s' := by
  have hhead : ∀ r, (s'.rings r).head = (s.rings r).head := fun r => by rw [rings]
  refine ⟨forward_of_head ok (fun r => by rw [rings]) hhead, ⟨rings ▸ ok.rings, rings ▸ heads⟩,
    fun r => ?_, ?_⟩
  · rw [quiet r, rings, Ring.between_self, List.nil_append, List.append_nil]
  · rw [latest, slotsBetween_of_head hhead, Nat.add_zero]

theorem stepped_of_deliver (ok : s.Ok) {r : Fin nr} {pkt : Slot} {ring : Ring}
    (h : (s.rings r).deliver pkt = some ring) :
    Stepped (.deliver r pkt) s (s.setRing r ring) := by
  obtain ⟨-, heq⟩ := Ring.deliver_eq h
  have hhead : ∀ q, ((s.setRing r ring).rings q).head = (s.rings q).head := by
    intro q
    by_cases hq : q = r
    · rw [hq, setRing_self, heq]
    · rw [setRing_of_ne _ hq]
  have hslots : ∀ q, ((s.setRing r ring).rings q).numSlots = (s.rings q).numSlots := by
    intro q
    by_cases hq : q = r
    · rw [hq, setRing_self, heq]
    · rw [setRing_of_ne _ hq]
  refine ⟨forward_of_head ok hslots hhead, ⟨fun q => ?_, fun t ht q => ?_⟩, fun q => ?_, ?_⟩
  · by_cases hq : q = r
    · rw [hq, setRing_self]
      exact (Ring.deliver_ok (ok.rings r) h).1
    · rw [setRing_of_ne _ hq]
      exact ok.rings q
  · by_cases hq : q = r
    · rw [hq, setRing_self]
      exact Ring.holds_deliver (ok.rings r) h (ok.heads t ht r)
    · rw [setRing_of_ne _ hq]
      exact ok.heads t ht q
  · rw [hhead q, Ring.between_self, List.nil_append]
    by_cases hq : q = r
    · rw [hq, setRing_self, Ring.queue_deliver (ok.rings r) h, delivered, if_pos rfl]
    · rw [setRing_of_ne _ hq, delivered, if_neg (Ne.symm hq), List.append_nil]
  · rw [slotsBetween_of_head hhead]
    rfl

theorem stepped_of_released (ok : s.Ok) (quiet : ∀ r, delivered r a s = []) (h : Released s s') :
    Stepped a s s' := by
  refine ⟨⟨fun r => ?_, fun r => ?_, fun t ht r => ?_⟩, ok_released ok h, fun r => ?_, h.received⟩
  all_goals obtain ⟨newHead, near, hrel⟩ := h.rings r
  · exact hrel.numSlots
  · rw [hrel.head]
    exact nearestHead_holds ok near
  · rw [hrel.head]
    rcases near with ⟨hnone, -⟩ | ⟨-, -, -, hle⟩
    · rw [hnone t] at ht
      cases ht
    · exact hle t ht
  · rw [hrel.head, quiet r, List.append_nil]
    exact Ring.queue_releasedTo hrel (ok.rings r) (nearestHead_holds ok near)

/-- Setting a task keeps the invariant if its heads are held once it is active. -/
theorem heads_setTask (ok : s.Ok) {t : Fin nt} {task : Task nr δ}
    (h : task.active = true → task.Holds s.rings) (u : Fin nt)
    (hu : ((s.setTask t task).tasks u).active = true) :
    ((s.setTask t task).tasks u).Holds s.rings := by
  by_cases hut : u = t
  · subst hut
    rw [setTask_self] at hu ⊢
    exact h hu
  · rw [setTask_of_ne _ hut] at hu ⊢
    exact ok.heads u hu

variable {hooks : Fin nt → Hooks nr δ} {fuel : ℕ}

theorem stepped (ok : s.Ok) (h : step hooks fuel a s = some s') : Stepped a s s' := by
  cases a with
  | deliver r pkt =>
    obtain ⟨ring, hring, rfl⟩ := Option.map_eq_some_iff.1 h
    exact stepped_of_deliver ok hring
  | advance t r =>
    rw [step] at h
    split_ifs at h with hcan
    cases h
    refine stepped_of_task ok (fun _ => rfl) rfl rfl (heads_setTask ok fun _ q => ?_)
    by_cases hq : q = r
    · rw [hq]
      exact Task.holds_advance _ (ok.rings r) (ok.heads t hcan.1 r) hcan.2
    · rw [Task.advance]
      dsimp only
      rw [Function.update_of_ne hq]
      exact ok.heads t hcan.1 q
  | request t data =>
    cases h
    exact stepped_of_task ok (fun _ => rfl) rfl rfl (heads_setTask ok (ok.heads t))
  | activate t =>
    rw [step] at h
    split_ifs at h with hidle
    cases h
    refine stepped_of_task ok (fun _ => rfl) rfl rfl (heads_setTask ok fun hact => ?_)
    rw [Task.Holds, (Task.activate_spec hidle hact).1]
    exact fun r => Ring.holds_head (ok.rings r)
  | deactivate t readersOk =>
    cases h
    refine stepped_of_task ok (fun _ => rfl) rfl rfl (heads_setTask ok fun hact r => ?_)
    obtain ⟨hheads, hactive⟩ := Task.deactivate_spec readersOk (s.tasks t)
    rw [hheads]
    exact ok.heads t (hactive hact) r
  | sigHn t sig readersOk =>
    rw [step] at h
    split_ifs at h
    obtain ⟨⟨rc, task, calls⟩, hsig, rfl⟩ := Option.map_eq_some_iff.1 h
    exact stepped_of_task ok (fun _ => rfl) rfl rfl
      (heads_setTask ok (Task.sigHn_spec ok.rings hsig (ok.heads t)))
  | newPkts signalled =>
    cases h
    cases signalled with
    | false => exact stepped_of_task ok (fun _ => rfl) rfl rfl ok.heads
    | true => exact stepped_of_released ok (fun _ => rfl) (newPktsHn_spec ok)

/-! ## Every run -/

/-- The packets that an action releases from a ring. -/
def released (hooks : Fin nt → Hooks nr δ) (fuel : ℕ) (r : Fin nr) (a : Action nr nt δ)
    (s : Sys nr nt δ) : List Slot :=
  match step hooks fuel a s with
  | none => []
  | some s' => (s.rings r).between (s.rings r).head (s'.rings r).head

/-- The number of slots that an action releases. -/
def slotsReleased (hooks : Fin nt → Hooks nr δ) (fuel : ℕ) (a : Action nr nt δ)
    (s : Sys nr nt δ) : ℕ :=
  ((List.finRange nr).map fun r => (released hooks fuel r a s).length).sum

theorem slotsReleased_eq (h : step hooks fuel a s = some s') :
    slotsReleased hooks fuel a s = slotsBetween s s' := by
  simp only [slotsReleased, released, h, Ring.length_between]
  rfl

/-- The packets released and those left are those that were there and those delivered. -/
def Queued (r : Fin nr) (start out inp : List Slot) (s : Sys nr nt δ) : Prop :=
  s.Ok ∧ out ++ (s.rings r).queue = start ++ inp

theorem queued_step {r : Fin nr} {start : List Slot} (out inp : List Slot) (a : Action nr nt δ)
    (s s' : Sys nr nt δ) (queued : Queued r start out inp s) (h : step hooks fuel a s = some s') :
    Queued r start (out ++ released hooks fuel r a s) (inp ++ delivered r a s) s' := by
  obtain ⟨ok, hqueue⟩ := queued
  have hstep := stepped ok h
  refine ⟨hstep.ok, ?_⟩
  have hrel : released hooks fuel r a s =
      (s.rings r).between (s.rings r).head (s'.rings r).head := by rw [released, h]
  calc
    out ++ released hooks fuel r a s ++ (s'.rings r).queue
    _ = out ++ ((s.rings r).queue ++ delivered r a s) := by
      rw [hrel, List.append_assoc, hstep.queue r]
    _ = start ++ (inp ++ delivered r a s) := by
      rw [← List.append_assoc, hqueue, List.append_assoc]

theorem received_step (a : Action nr nt δ) (s s' : Sys nr nt δ) (ok : s.Ok)
    (h : step hooks fuel a s = some s') :
    s'.Ok ∧ s'.latest.received = s.latest.received + slotsReleased hooks fuel a s := by
  have hstep := stepped ok h
  exact ⟨hstep.ok, by rw [slotsReleased_eq h, hstep.received]⟩

/-- Each slot is released once, in order, and only after every active task is past it. -/
theorem released_once_in_order (hooks : Fin nt → Hooks nr δ) (fuel : ℕ)
    {acts : List (Action nr nt δ)} {s s' : Sys nr nt δ} (rings : ∀ r, (s.rings r).Ok)
    (idle : ∀ t, (s.tasks t).active = false) (h : Runs.run (step hooks fuel) acts s = some s') :
    (∀ t, (s'.tasks t).active = true → (s'.tasks t).Holds s'.rings) ∧
      Released s' (s'.newPktsHn true).2 ∧
      (∀ a s'', step hooks fuel a s' = some s'' → Forward s' s'') ∧
      (∀ r, Runs.collect (step hooks fuel) (released hooks fuel r) acts s ++ (s'.rings r).queue =
        (s.rings r).queue ++ Runs.collect (step hooks fuel) (delivered r) acts s) ∧
      s'.latest.received =
        s.latest.received + Runs.total (step hooks fuel) (slotsReleased hooks fuel) acts s := by
  have start : s.Ok := ⟨rings, fun t ht => nomatch (idle t).symm.trans ht⟩
  have ok : s'.Ok := Runs.invariant (fun a s s' ok hstep => (stepped ok hstep).ok) start h
  refine ⟨ok.heads, newPktsHn_spec ok, fun a s'' hstep => (stepped ok hstep).toForward,
    fun r => ?_, ?_⟩
  · have queued : Queued r (s.rings r).queue [] [] s :=
      ⟨start, by rw [List.nil_append, List.append_nil]⟩
    exact (Runs.history queued_step queued h).2
  · exact Runs.total_run (fun s => s.latest.received) received_step start h

/-- A run in which the task reads one of two packets before the coordinator comes by. -/
def sampleRun : List (Action 1 1 Unit) :=
  [.activate sole, .deliver sole (samplePkt 1), .deliver sole (samplePkt 2), .advance sole sole,
    .newPkts true]

theorem released_once_in_order_sample :
    ∃ s', Runs.run (step (sampleHooks .zero) 0) sampleRun sample = some s' ∧
      (s'.rings 0).head = 1 ∧ s'.latest.received = 1 ∧
      Runs.collect (step (sampleHooks .zero) 0) (released (sampleHooks .zero) 0 0) sampleRun sample ++
        (s'.rings 0).queue = [samplePkt 1, samplePkt 2] := by
  have hrun : Runs.run (step (sampleHooks .zero) 0) sampleRun sample = some _ := rfl
  obtain ⟨-, -, -, hqueue, -⟩ :=
    released_once_in_order (sampleHooks .zero) 0 sample_ok (fun _ => rfl) hrun
  exact ⟨_, hrun, rfl, rfl, hqueue 0⟩

end Sys

end Tesd
