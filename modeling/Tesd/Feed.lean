import Tesd.Wakeup

/-!
# Packet handlers and the packets they are fed

The packet handlers of the tasks look at their own data and at the protocol sequences that
`s_task_dispatch` keeps, and at nothing else of the task.  What a wakeup does to these is what one
gets by feeding the handler the calls of the wakeup one by one.
-/

namespace Tesd

/-- What a packet handler uses of its task. -/
structure View (δ : Type) where
  prevPseqMca : ℕ
  prevPseqTr : ℕ
  data : δ

/-- A packet handler: given the packet, `flen`, `missed` and `err`. -/
abbrev PktHandler (δ : Type) := View δ → Tespkt → ℕ → ℕ → ℕ → TaskRc × δ

namespace View

variable {δ : Type} {handler : PktHandler δ} {rc : TaskRc} {v v' : View δ}

/-- What `s_task_dispatch` keeps of a packet. -/
def seen (pkt : Tespkt) (data : δ) (v : View δ) : View δ where
  prevPseqMca := if pkt.isMca then pkt.pseq else v.prevPseqMca
  prevPseqTr := if !pkt.isMca && pkt.isTraceLong then pkt.pseq else v.prevPseqTr
  data := data

/-- The result of the packet handler for a call. -/
def handle (handler : PktHandler δ) (call : Call) (v : View δ) : TaskRc × δ :=
  handler v call.slot.pkt call.slot.flen call.missed call.slot.err

/-- One packet. -/
def packet (handler : PktHandler δ) (call : Call) (v : View δ) : TaskRc × View δ :=
  ((v.handle handler call).1, v.seen call.slot.pkt (v.handle handler call).2)

/-- One packet after the other, until the handler wants no more. -/
def feed (handler : PktHandler δ) : List Call → View δ → TaskRc × View δ
  | [], v => (.zero, v)
  | call :: calls, v =>
    if (v.packet handler call).1 = .zero then feed handler calls (v.packet handler call).2
    else v.packet handler call

theorem feed_append (calls more : List Call) (v : View δ) :
    feed handler (calls ++ more) v =
      if (feed handler calls v).1 = .zero then feed handler more (feed handler calls v).2
      else feed handler calls v := by
  induction calls generalizing v with
  | nil => rw [List.nil_append, feed, if_pos rfl]
  | cons call calls ih =>
    rw [List.cons_append, feed, feed]
    split_ifs with hz hrest
    · rw [ih, if_pos hrest]
    · rw [ih, if_neg hrest]
    · rfl

end View

/-- The functions of a task with such a packet handler. -/
def PktHandler.hooks {δ : Type} (nr : ℕ) (handler : PktHandler δ) (dataWakeup : δ → Bool × δ) :
    Hooks nr δ :=
  ⟨fun task => handler ⟨task.prevPseqMca, task.prevPseqTr, task.data⟩, dataWakeup⟩

namespace Task

variable {nr : ℕ} {δ : Type} {handler : PktHandler δ} {wake : δ → Bool × δ}
  {rings : Fin nr → Ring} {task task' : Task nr δ} {rc : TaskRc} {calls : List Call}

def view (task : Task nr δ) : View δ := ⟨task.prevPseqMca, task.prevPseqTr, task.data⟩

theorem dispatch_feed {r : Fin nr} {fuel : ℕ}
    (h : task.dispatch (handler.hooks nr wake) rings r fuel = some (rc, task', calls)) :
    task.view.feed handler calls = (rc, task'.view) := by
  induction fuel generalizing task calls with
  | zero => cases h
  | succ fuel ih =>
    by_cases ne : task.heads r = (rings r).tail
    · rw [dispatch_of_tail fuel ne] at h
      cases h
      rfl
    · rw [dispatch_of_ne fuel ne] at h
      dsimp only at h
      split_ifs at h with hrc
      · cases h
        exact if_neg hrc
      · rw [ne_eq, not_not] at hrc
        obtain ⟨⟨rc₁, task₁, calls₁⟩, h₁, heq⟩ := Option.map_eq_some_iff.1 h
        cases heq
        exact (if_pos hrc).trans (ih h₁)

theorem frame_of_dispatch {hooks : Hooks nr δ} {r : Fin nr} {fuel : ℕ}
    (h : task.dispatch hooks rings r fuel = some (rc, task', calls)) :
    task'.active = task.active ∧ task'.error = task.error := by
  induction fuel generalizing task calls with
  | zero => cases h
  | succ fuel ih =>
    by_cases ne : task.heads r = (rings r).tail
    · rw [dispatch_of_tail fuel ne] at h
      cases h
      exact ⟨rfl, rfl⟩
    · rw [dispatch_of_ne fuel ne] at h
      dsimp only at h
      split_ifs at h with hrc
      · cases h
        exact ⟨rfl, rfl⟩
      · obtain ⟨⟨rc₁, task₁, calls₁⟩, h₁, heq⟩ := Option.map_eq_some_iff.1 h
        cases heq
        obtain ⟨hact, herr⟩ := ih h₁
        exact ⟨hact, herr⟩

/-- The loop of `s_sig_hn` feeds the packet handler, and acts on its last return value. -/
theorem process_feed {readersOk : Bool} {len fuel : ℕ}
    (h : process (handler.hooks nr wake) rings readersOk len fuel task = some (task', calls)) :
    (task.view.feed handler calls).2 = task'.view ∧
      (match (task.view.feed handler calls).1 with
        | .zero => task'.active = task.active ∧ task'.error = task.error
        | .sleep => task'.active = (task.active && !readersOk) ∧ task'.error = task.error
        | .error => task'.active = task.active ∧ task'.error = true) := by
  induction fuel generalizing task calls with
  | zero => cases h
  | succ fuel ih =>
    obtain ⟨⟨prev, hprev⟩, -⟩ := nextRing_spec rings task
    rcases process_cases h with ⟨-, rfl, rfl⟩ | ⟨r, rc, task₁, calls₁, -, hd, hrc⟩
    · rw [hprev]
      exact ⟨rfl, rfl, rfl⟩
    · rw [hprev] at hd
      have hfeed : ({ task with prevFseq := prev } : Task nr δ).view.feed handler calls₁ =
          (rc, task₁.view) := dispatch_feed hd
      have hview : ({ task with prevFseq := prev } : Task nr δ).view = task.view := rfl
      rw [hview] at hfeed
      obtain ⟨hact, herr⟩ := frame_of_dispatch hd
      rcases hrc with ⟨rfl, rfl, rfl⟩ | ⟨rfl, rfl, rfl⟩ | ⟨rfl, more, rfl, hmore⟩
      · rw [hfeed, deactivate_eq]
        exact ⟨rfl, by rw [← hact], herr⟩
      · rw [hfeed]
        exact ⟨rfl, hact, rfl⟩
      · rw [View.feed_append, hfeed, if_pos rfl, ← hact, ← herr]
        have hrest := ih hmore
        exact hrest

/-- What a wakeup of an active task does is to feed its packet handler. -/
theorem sigHn_feed {readersOk : Bool} {fuel : ℕ} {ret : ℤ}
    (h : task.sigHn (handler.hooks nr wake) rings readersOk fuel .wakeup = some (ret, task', calls))
    (active : task.active = true) (error : task.error = false) :
    (task.view.feed handler calls).2 = task'.view ∧
      (match (task.view.feed handler calls).1 with
        | .zero => task'.active = true ∧ ret = 0
        | .sleep => task'.active = !readersOk ∧ ret = 0
        | .error => task'.active = true ∧ ret = -1) := by
  unfold sigHn at h
  dsimp only at h
  rw [if_neg (by decide), if_neg (by simp [active])] at h
  cases hp : process (handler.hooks nr wake) rings readersOk fuel fuel { task with busy := true } with
  | none =>
    rw [hp] at h
    cases h
  | some res =>
    obtain ⟨task₁, calls₁⟩ := res
    rw [hp] at h
    cases h
    obtain ⟨hview, hrc⟩ := process_feed hp
    refine ⟨hview, ?_⟩
    have hsame : ({ task with busy := true } : Task nr δ).view = task.view := rfl
    rw [hsame] at hrc
    cases hf : (task.view.feed handler calls).1 with
    | zero =>
      rw [hf] at hrc
      exact ⟨hrc.1.trans active, if_neg (by simp [hrc.2, error])⟩
    | sleep =>
      rw [hf] at hrc
      exact ⟨hrc.1.trans (by simp [active]), if_neg (by simp [hrc.2, error])⟩
    | error =>
      rw [hf] at hrc
      exact ⟨hrc.1.trans active, if_pos hrc.2⟩

end Task

end Tesd
