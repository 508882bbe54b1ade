import Tesd.ArchiveKept
import Tesd.Avgtr
import Tesd.Delivery
import Tesd.Hist
import Tesd.Info
import Tesd.Jitter
import Tesd.Recapture

/-!
# The server

The five tasks of `s_tasks` around the rings.  Whatever the coordinator, the kernel and the other
tasks do, and in whatever order, the capture task and its files go through a run of the archive:
its events are the requests and the frames that the task handles.
-/

namespace Tesd

/-! ## Handlers on the data of one task of several -/

/-- Where the data `δ` of a task is among that of all tasks. -/
structure Place (δ α : Type) where
  get : α → Option δ
  put : δ → α
  get_put : ∀ d, get (put d) = some d

namespace View

variable {δ α : Type}

def map (f : δ → α) (v : View δ) : View α := ⟨v.prevPseqMca, v.prevPseqTr, f v.data⟩

end View

/-- A packet handler, on data that has its own in a place. -/
def PktHandler.inPlace {δ α : Type} (place : Place δ α) (handler : PktHandler δ) : PktHandler α :=
  fun v pkt flen missed err =>
    match place.get v.data with
    | none => (.error, v.data)
    | some d =>
      let (rc, d) := handler ⟨v.prevPseqMca, v.prevPseqTr, d⟩ pkt flen missed err
      (rc, place.put d)

namespace View

variable {δ α : Type} {handler : PktHandler δ} {place : Place δ α}

theorem packet_inPlace (call : Call) (v : View δ) :
    (v.map place.put).packet (handler.inPlace place) call =
      ((v.packet handler call).1, (v.packet handler call).2.map place.put) := by
  have hhandle : (v.map place.put).handle (handler.inPlace place) call =
      ((v.handle handler call).1, place.put (v.handle handler call).2) := by
    unfold handle PktHandler.inPlace map
    dsimp only
    rw [place.get_put]
  rw [packet, hhandle]
  rfl

theorem feed_inPlace (calls : List Call) (v : View δ) :
    (v.map place.put).feed (handler.inPlace place) calls =
      ((v.feed handler calls).1, (v.feed handler calls).2.map place.put) := by
  induction calls generalizing v with
  | nil => rfl
  | cons call calls ih =>
    rw [feed, feed, packet_inPlace]
    dsimp only
    split_ifs
    · exact ih _
    · rfl

end View

/-! ## The tasks -/

/-- `self->data` of the tasks. -/
inductive TaskData
  | info (d : RepData InfoData InfoRep)
  | cap (d : RepData Archive CapReply)
  | avgtr (d : RepData AvgtrData AvgtrRep)
  | hist (d : HistData)
  | jitter (d : JitterData)

namespace TaskData

def infoPlace : Place (RepData InfoData InfoRep) TaskData :=
  ⟨fun d => match d with
    | .info d => some d
    | _ => none, .info, fun _ => rfl⟩

def capPlace : Place (RepData Archive CapReply) TaskData :=
  ⟨fun d => match d with
    | .cap d => some d
    | _ => none, .cap, fun _ => rfl⟩

def avgtrPlace : Place (RepData AvgtrData AvgtrRep) TaskData :=
  ⟨fun d => match d with
    | .avgtr d => some d
    | _ => none, .avgtr, fun _ => rfl⟩

def histPlace : Place HistData TaskData :=
  ⟨fun d => match d with
    | .hist d => some d
    | _ => none, .hist, fun _ => rfl⟩

def jitterPlace : Place JitterData TaskData :=
  ⟨fun d => match d with
    | .jitter d => some d
    | _ => none, .jitter, fun _ => rfl⟩

end TaskData

/-- `task_cap_pkt_hn` on the task and its files, given what the uninitialised `fidx.ftype` holds. -/
def archivePktHn (junk : RepData Archive CapReply → UInt8) :
    PktHandler (RepData Archive CapReply) :=
  fun v pkt flen missed err =>
    if short : flen < 2 ^ 16 then
      if valid : err = 0 → pkt.isValid = 0 ∧ flen = pkt.flen then
        match v.data.own.handle (.frame ⟨pkt, flen, missed, err, junk v.data, short, valid⟩) with
        | none => (.error, v.data)
        | some (none, a) => (.zero, { v.data with own := a })
        | some (some rep, a) => (.sleep, { v.data with own := a }.reply rep)
      else (.error, v.data)
    else (.error, v.data)

/-- `s_tasks`. -/
def sTasks (nr : ℕ) (junk : RepData Archive CapReply → UInt8) (t : Fin 5) : Hooks nr TaskData :=
  match t with
  | ⟨0, _⟩ => (taskInfoPktHn.inPlace TaskData.infoPlace).hooks nr fun d => (true, d)
  | ⟨1, _⟩ => ((archivePktHn junk).inPlace TaskData.capPlace).hooks nr fun d => (true, d)
  | ⟨2, _⟩ => (taskAvgtrPktHn.inPlace TaskData.avgtrPlace).hooks nr fun d => (true, d)
  | ⟨3, _⟩ => (taskHistPktHn.inPlace TaskData.histPlace).hooks nr fun d => match d with
    | .hist d => ((taskHistWakeup d).1, .hist (taskHistWakeup d).2)
    | d => (false, d)
  | ⟨_ + 4, _⟩ => (taskJitterPktHn.inPlace TaskData.jitterPlace).hooks nr fun d => match d with
    | .jitter d => ((taskJitterWakeup d).1, .jitter (taskJitterWakeup d).2)
    | d => (false, d)

/-- The place of the capture task in `s_tasks`. -/
def capTask : Fin 5 := ⟨1, by decide⟩

/-! ## Frames for the archive -/

/-- The reply that is sent at an event, if one is. -/
def Archive.sent (e : ArchiveEvent) (a : Archive) : List CapReply :=
  match a.handle e with
  | some (some rep, _) => [rep]
  | _ => []

/-- The frames among some events. -/
def framesOf (events : List ArchiveEvent) : List Frame :=
  events.filterMap fun e => match e with
    | .frame f => some f
    | _ => none

theorem framesOf_frames (frames : List Frame) : framesOf (frames.map .frame) = frames := by
  rw [framesOf, List.filterMap_map]
  exact List.filterMap_some

theorem framesOf_append (events more : List ArchiveEvent) :
    framesOf (events ++ more) = framesOf events ++ framesOf more :=
  List.filterMap_append

/-- What the task becomes at these events. -/
structure Archived (events : List ArchiveEvent) (d d' : RepData Archive CapReply) : Prop where
  run : Runs.run Archive.next events d.own = some d'.own
  replies : d'.replies = d.replies ++ Runs.collect Archive.next Archive.sent events d.own

section Archived

variable {events more : List ArchiveEvent} {d d' d'' : RepData Archive CapReply}

theorem archived_nil (d : RepData Archive CapReply) : Archived [] d d :=
  ⟨rfl, (List.append_nil _).symm⟩

theorem archived_append (h : Archived events d d') (h' : Archived more d' d'') :
    Archived (events ++ more) d d'' := by
  refine ⟨?_, ?_⟩
  · rw [Runs.run_append, h.run]
    exact h'.run
  · rw [Runs.collect_append more h.run, ← List.append_assoc, ← h.replies]
    exact h'.replies

/-- One event. -/
theorem archived_one {e : ArchiveEvent} {rep : Option CapReply} {a : Archive}
    (h : d.own.handle e = some (rep, a)) (own : d'.own = a)
    (replies : d'.replies = d.replies ++ rep.toList) : Archived [e] d d' := by
  have hnext : d.own.next e = some a := by
    rw [Archive.next, h]
    rfl
  have hsent : d.own.sent e = rep.toList := by
    rw [Archive.sent, h]
    cases rep <;> rfl
  refine ⟨?_, ?_⟩
  · rw [Runs.run, hnext, own]
    rfl
  · rw [Runs.collect_cons hnext, hsent, Runs.collect, List.append_nil]
    exact replies

/-- Frames that come while no job is in progress are dropped. -/
theorem archived_dropped (idle : d.own.job = none) (frames : List Frame) :
    Archived (frames.map .frame) d d := by
  induction frames with
  | nil => exact archived_nil d
  | cons f frames ih =>
    have hdrop : d.own.handle (.frame f) = some (none, d.own) := by
      unfold Archive.handle
      rw [idle]
    exact archived_append (archived_one hdrop rfl (List.append_nil _).symm) ih

end Archived

theorem archivePktHn_of_call (junk : RepData Archive CapReply → UInt8) (call : Call)
    (v : View (RepData Archive CapReply)) :
    v.handle (archivePktHn junk) call =
      match v.data.own.handle (.frame (.ofSlot call.slot call.missed (junk v.data))) with
      | none => (.error, v.data)
      | some (none, a) => (.zero, { v.data with own := a })
      | some (some rep, a) => (.sleep, { v.data with own := a }.reply rep) :=
  (dif_pos call.slot.flen_lt).trans (dif_pos Slot.valid_of_err)

/-- What the calls of the packet handler make of the archive: all are handled but for an error. -/
structure Filed (calls : List Call) (rc : TaskRc) (d d' : RepData Archive CapReply)
    (kept : List Call) (frames : List Frame) : Prop where
  pre : kept <+: calls
  passed : List.Forall₂ PassedOn kept frames
  archived : Archived (frames.map .frame) d d'
  all : rc ≠ .error → kept = calls
  goes : rc = .zero → d'.own.job = d.own.job
  ends : rc = .sleep → d'.own.job = none

/-- A job is in progress after a frame unless the reply is sent. -/
theorem job_of_frame {a a' : Archive} {f : Frame} {r : Option CapReply}
    (h : a.handle (.frame f) = some (r, a')) :
    (r = none → a'.job = a.job) ∧ (r ≠ none → a'.job = none) := by
  cases busy : a.job with
  | none =>
    unfold Archive.handle at h
    rw [busy] at h
    obtain ⟨rfl, rfl⟩ := Prod.mk.inj (Option.some.inj h)
    exact ⟨fun _ => busy, fun h => absurd rfl h⟩
  | some w =>
    rcases Archive.handle_frame_cases busy h with
      ⟨job, -, rfl, rfl⟩ | ⟨report, job, fs, -, rfl, rfl⟩
    · exact ⟨fun _ => rfl, fun h => absurd rfl h⟩
    · exact ⟨fun h => (by cases h), fun _ => rfl⟩

theorem passedOn_of_calls (calls : List Call) :
    List.Forall₂ PassedOn calls (calls.map fun c => .ofSlot c.slot c.missed 0) := by
  induction calls with
  | nil => exact .nil
  | cons call calls ih => exact .cons ⟨0, rfl⟩ ih

theorem feed_archivePktHn (junk : RepData Archive CapReply → UInt8) (calls : List Call)
    (v : View (RepData Archive CapReply)) : ∃ kept frames,
      Filed calls (v.feed (archivePktHn junk) calls).1 v.data
        (v.feed (archivePktHn junk) calls).2.data kept frames := by
  induction calls generalizing v with
  | nil =>
    exact ⟨[], [], List.nil_prefix, .nil, archived_nil _, fun _ => rfl, fun _ => rfl,
      fun h => by cases h⟩
  | cons call calls ih =>
    have hcall := archivePktHn_of_call junk call v
    rw [View.feed, View.packet]
    generalize hf : Frame.ofSlot call.slot call.missed (junk v.data) = f at hcall
    have passed : PassedOn call f := ⟨_, hf.symm⟩
    rcases hh : v.data.own.handle (.frame f) with _ | ⟨_ | rep, a⟩
    all_goals
      rw [hh] at hcall
      rw [hcall]
    · -- the frame is too much for the task
      exact ⟨[], [], List.nil_prefix, .nil, archived_nil _, fun h => absurd rfl h,
        fun h => (by cases h), fun h => by cases h⟩
    · obtain ⟨kept, frames, filed⟩ := ih (v.seen call.slot.pkt { v.data with own := a })
      rw [if_pos rfl]
      have hone : Archived [.frame f] v.data { v.data with own := a } :=
        archived_one hh rfl (List.append_nil _).symm
      refine ⟨call :: kept, f :: frames, (List.cons_prefix_cons).2 ⟨rfl, filed.pre⟩,
        .cons passed filed.passed, archived_append hone filed.archived, fun h => ?_, fun h => ?_,
        filed.ends⟩
      · rw [filed.all h]
      · exact (filed.goes h).trans ((job_of_frame hh).1 rfl)
    · -- the job ends, and what comes after it is dropped
      have idle : a.job = none := (job_of_frame hh).2 (by simp)
      rw [if_neg (by simp)]
      have hone : Archived [.frame f] v.data ({ v.data with own := a }.reply rep) :=
        archived_one hh rfl rfl
      exact ⟨call :: calls, f :: calls.map fun c => .ofSlot c.slot c.missed 0, List.prefix_rfl,
        .cons passed (passedOn_of_calls calls), archived_append hone (archived_dropped idle _),
        fun _ => rfl, fun h => (by cases h), fun _ => idle⟩

/-! ## The capture task in the server -/

namespace Task

variable {nr fuel : ℕ} {junk : RepData Archive CapReply → UInt8} {rings : Fin nr → Ring}
  {task task' : Task nr TaskData} {d : RepData Archive CapReply} {rc : ℤ} {calls : List Call}

/-- A wakeup of the capture task. -/
theorem sigHn_capTask (data : task.data = .cap d) (active : task.active = true)
    (error : task.error = false)
    (h : task.sigHn (sTasks nr junk capTask) rings true fuel .wakeup = some (rc, task', calls)) :
    ∃ res d' kept frames, Filed calls res d d' kept frames ∧ task'.data = .cap d' ∧
      (match res with
        | .zero => task'.active = true ∧ rc = 0
        | .sleep => task'.active = false ∧ rc = 0
        | .error => task'.active = true ∧ rc = -1) := by
  obtain ⟨hview, hrc⟩ := sigHn_feed h active error
  have hstart : task.view =
      (View.mk task.prevPseqMca task.prevPseqTr d).map TaskData.capPlace.put := by
    unfold view
    rw [data]
    rfl
  rw [hstart, View.feed_inPlace] at hview hrc
  obtain ⟨kept, frames, filed⟩ :=
    feed_archivePktHn junk calls (View.mk task.prevPseqMca task.prevPseqTr d)
  exact ⟨_, _, kept, frames, filed, (congrArg View.data hview).symm, hrc⟩

/-- A signal to an inactive task leaves its data alone. -/
theorem data_of_inactive {δ : Type} {hooks : Hooks nr δ} {task task' : Task nr δ} {readersOk : Bool}
    {sig : Signal} (h : task.sigHn hooks rings readersOk fuel sig = some (rc, task', calls))
    (idle : task.active = false) : task'.data = task.data ∧ task'.error = task.error := by
  unfold sigHn at h
  dsimp only at h
  split_ifs at h
  all_goals
    obtain ⟨-, hrest⟩ := Prod.mk.inj (Option.some.inj h)
    obtain ⟨rfl, -⟩ := Prod.mk.inj hrest
    exact ⟨rfl, rfl⟩

/-- A wakeup handler that returns 0 leaves no error. -/
theorem error_of_sigHn {δ : Type} {hooks : Hooks nr δ} {task task' : Task nr δ} {readersOk : Bool}
    {sig : Signal} (h : task.sigHn hooks rings readersOk fuel sig = some (0, task', calls))
    (active : task.active = true) : task'.error = false := by
  unfold sigHn at h
  dsimp only at h
  split_ifs at h with hstop hidle
  · cases h
  · rw [active] at hidle
    cases hidle
  · split at h
    · cases h
    next task₁ calls₁ hprocess =>
      obtain ⟨hrc, hrest⟩ := Prod.mk.inj (Option.some.inj h)
      obtain ⟨rfl, -⟩ := Prod.mk.inj hrest
      by_contra herr
      rw [Bool.not_eq_false] at herr
      rw [if_pos herr] at hrc
      cases hrc

end Task

namespace Sys

variable {n fuel : ℕ} {junk : RepData Archive CapReply → UInt8} {s s' : Sys (n + 1) 5 TaskData}
  {a : Action (n + 1) 5 TaskData} {d₀ d : RepData Archive CapReply} {calls : List Call}

/-- The capture task is asked by its clients, and its request handler activates it if it has started
a job; only its packet handler puts it to sleep. -/
def Captures (a : Action (n + 1) 5 TaskData) (s : Sys (n + 1) 5 TaskData) : Prop :=
  match a with
  | .request u data => u = capTask → s.ended capTask = false ∧ (s.tasks capTask).active = false ∧
      ∃ d w req rep a', (s.tasks capTask).data = .cap d ∧
        d.own.handle (.request w req) = some (rep, a') ∧
        data = .cap ⟨a', d.timers, d.replies ++ rep.toList⟩
  | .activate u => u = capTask → ∃ d, (s.tasks capTask).data = .cap d ∧ d.own.job ≠ none
  | .deactivate u _ => u ≠ capTask
  | .sigHn u _ readersOk => u = capTask → readersOk = true
  | _ => True

/-- The capture task has this data, and while its loop runs it has no error, and is active only
while a job is in progress. -/
structure CapAt (s : Sys (n + 1) 5 TaskData) (d : RepData Archive CapReply) : Prop where
  data : (s.tasks capTask).data = .cap d
  error : s.ended capTask = false → (s.tasks capTask).error = false
  busy : s.ended capTask = false → (s.tasks capTask).active = true → d.own.job ≠ none

/-- What an action with these calls does to the capture task: the archive goes through some events,
which are frames unless the task is asked, and a job that begins to sleep has ended. -/
structure Moves (a : Action (n + 1) 5 TaskData) (calls : List Call) (s s' : Sys (n + 1) 5 TaskData)
    (d d' : RepData Archive CapReply) (events : List ArchiveEvent) (kept : List Call) : Prop where
  at_ : CapAt s' d'
  archived : Archived events d d'
  pre : kept <+: calls
  passed : List.Forall₂ PassedOn kept (framesOf events)
  all : s'.ended capTask = false → s.ended capTask = false ∧ kept = calls
  after : s.ended capTask = true → kept = []
  session : (∀ data, a ≠ .request capTask data) →
    (∃ frames : List Frame, events = frames.map .frame) ∧
      (s'.ended capTask = false → ((s.tasks capTask).active = false → d.own.job = none) →
        (s'.tasks capTask).active = false → d'.own.job = none)

/-- An action that leaves the task alone, but for its heads. -/
theorem moves_of_frame (at_ : CapAt s d)
    (data : (s'.tasks capTask).data = (s.tasks capTask).data)
    (runs : s'.ended capTask = false → s.ended capTask = false ∧
      (s'.tasks capTask).error = (s.tasks capTask).error ∧
      (s'.tasks capTask).active = (s.tasks capTask).active) :
    ∃ d' events kept, Moves a [] s s' d d' events kept := by
  refine ⟨d, [], [], ⟨data.trans at_.data, fun h => ?_, fun h active => ?_⟩, archived_nil d,
    List.nil_prefix, .nil, fun h => ⟨(runs h).1, rfl⟩, fun _ => rfl,
    fun _ => ⟨⟨[], rfl⟩, fun h asleep idle => asleep ((runs h).2.2.symm.trans idle)⟩⟩
  · exact (runs h).2.1.trans (at_.error (runs h).1)
  · exact at_.busy (runs h).1 ((runs h).2.2.symm.trans active)

theorem moves_of_task (at_ : CapAt s d) (task : s'.tasks capTask = s.tasks capTask)
    (ended : s'.ended capTask = false → s.ended capTask = false) :
    ∃ d' events kept, Moves a [] s s' d d' events kept :=
  moves_of_frame at_ (by rw [task]) fun h => ⟨ended h, by rw [task], by rw [task]⟩

theorem tasks_newPktsHn {nt : ℕ} {δ : Type} (signalled : Bool) (s : Sys (n + 1) nt δ) :
    (s.newPktsHn signalled).2.tasks = s.tasks ∧ (s.newPktsHn signalled).2.ended = s.ended := by
  cases signalled with
  | false => exact ⟨rfl, rfl⟩
  | true =>
    have hfold := (foldl_releaseRing (tasksGetHeads s.rings s.taskList) (List.finRange (n + 1))
      (List.nodup_finRange _)
      ({ s with latest := { s.latest with polled := s.latest.polled + 1 } }, true)).1
    unfold newPktsHn
    rw [if_neg (by simp)]
    dsimp only
    split_ifs <;> exact hfold

/-- A wakeup of the active capture task. -/
theorem moves_wakeup {rc : ℤ} {task : Task (n + 1) TaskData} (at_ : CapAt s d)
    (running : s.ended capTask = false) (active : (s.tasks capTask).active = true)
    (h : (s.tasks capTask).sigHn (sTasks (n + 1) junk capTask) s.rings true fuel .wakeup =
      some (rc, task, calls)) :
    ∃ d' events kept,
      Moves a calls s ((s.setTask capTask task).setEnded capTask rc) d d' events kept := by
  obtain ⟨res, d', kept, frames, filed, data, hres⟩ :=
    Task.sigHn_capTask at_.data active (at_.error running) h
  have hzero : ((s.setTask capTask task).setEnded capTask rc).ended capTask = false → rc ≠ -1 := by
    rw [setEnded_self, decide_eq_false_iff_not]
    exact id
  have hrc : rc ≠ -1 → res ≠ .error ∧ rc = 0 ∧ (task.active = true ∧ res = .zero ∨
      task.active = false ∧ res = .sleep) := by
    intro hrc
    cases res with
    | zero => exact ⟨by simp, hres.2, Or.inl ⟨hres.1, rfl⟩⟩
    | sleep => exact ⟨by simp, hres.2, Or.inr ⟨hres.1, rfl⟩⟩
    | error => exact absurd hres.2 hrc
  refine ⟨d', frames.map .frame, kept, ⟨?_, fun hended => ?_, fun hended hact => ?_⟩,
    filed.archived, filed.pre, ?_, fun hended => ⟨running, filed.all (hrc (hzero hended)).1⟩,
    fun hended => absurd (running.symm.trans hended) Bool.false_ne_true,
    fun _ => ⟨⟨frames, rfl⟩, fun hended _ hidle => ?_⟩⟩
  · rw [setEnded, setTask_self]
    exact data
  · obtain rfl := (hrc (hzero hended)).2.1
    rw [setEnded, setTask_self]
    exact Task.error_of_sigHn h active
  · rw [setEnded, setTask_self] at hact
    rcases (hrc (hzero hended)).2.2 with ⟨-, rfl⟩ | ⟨hidle, -⟩
    · rw [filed.goes rfl]
      exact at_.busy running active
    · cases hidle.symm.trans hact
  · rw [framesOf_frames]
    exact filed.passed
  · rw [setEnded, setTask_self] at hidle
    rcases (hrc (hzero hended)).2.2 with ⟨hact, -⟩ | ⟨-, rfl⟩
    · cases hact.symm.trans hidle
    · exact filed.ends rfl

/-- A signal to the capture task. -/
theorem moves_sigHn {sig : Signal} {rc : ℤ} {task : Task (n + 1) TaskData} {calls : List Call}
    (at_ : CapAt s d) (running : s.ended capTask = false)
    (h : (s.tasks capTask).sigHn (sTasks (n + 1) junk capTask) s.rings true fuel sig =
      some (rc, task, calls)) :
    ∃ d' events kept,
      Moves a calls s ((s.setTask capTask task).setEnded capTask rc) d d' events kept := by
  cases active : (s.tasks capTask).active with
  | false =>
    obtain ⟨rfl, idle⟩ := Task.sigHn_of_inactive h active
    obtain ⟨data, error⟩ := Task.data_of_inactive h active
    refine moves_of_frame at_ ?_ fun _ => ⟨running, ?_, ?_⟩
    all_goals rw [setEnded, setTask_self]
    · exact data
    · exact error
    · exact idle.trans active.symm
  | true =>
    cases sig with
    | stop =>
      obtain ⟨rfl, hrest⟩ := Prod.mk.inj (Option.some.inj h)
      obtain ⟨rfl, rfl⟩ := Prod.mk.inj hrest
      refine moves_of_frame at_ ?_ fun hended => ?_
      · rw [setEnded, setTask_self]
      · rw [setEnded_self] at hended
        cases hended
    | wakeup => exact moves_wakeup at_ running active h

/-- What one action of the server does to the capture task. -/
theorem moves_step (at_ : CapAt s d) (captures : Captures a s)
    (h : step (sTasks (n + 1) junk) fuel a s = some s') :
    ∃ d' events kept,
      Moves a (handled (sTasks (n + 1) junk) fuel capTask a s) s s' d d' events kept := by
  cases a with
  | deliver r pkt =>
    obtain ⟨ring, -, rfl⟩ := Option.map_eq_some_iff.1 h
    exact moves_of_frame at_ rfl fun running => ⟨running, rfl, rfl⟩
  | advance u r =>
    rw [step] at h
    split_ifs at h
    obtain rfl := Option.some.inj h
    by_cases hu : capTask = u
    · subst hu
      refine moves_of_frame at_ ?_ fun running => ⟨running, ?_, ?_⟩
      all_goals
        rw [setTask_self]
        rfl
    · exact moves_of_task at_ (setTask_of_ne _ hu _) fun running => running
  | request u data =>
    obtain rfl := Option.some.inj h
    by_cases hu : capTask = u
    · subst hu
      obtain ⟨running, idle, d₁, w, req, rep, a', hdata, hhandle, rfl⟩ := captures rfl
      obtain rfl : d = d₁ := TaskData.cap.inj (at_.data.symm.trans hdata)
      refine ⟨⟨a', d.timers, d.replies ++ rep.toList⟩, [.request w req], [], ⟨?_, fun _ => ?_,
        fun _ hact => ?_⟩, archived_one hhandle rfl rfl, List.nil_prefix, .nil,
        fun _ => ⟨running, rfl⟩, fun _ => rfl, fun hnot => absurd rfl (hnot _)⟩
      · rw [setTask_self]
      · rw [setTask_self]
        exact at_.error running
      · rw [setTask_self] at hact
        cases idle.symm.trans hact
    · exact moves_of_task at_ (setTask_of_ne _ hu _) fun running => running
  | activate u =>
    rw [step] at h
    split_ifs at h
    obtain rfl := Option.some.inj h
    by_cases hu : capTask = u
    · subst hu
      obtain ⟨d₁, hdata, hjob⟩ := captures rfl
      obtain rfl : d = d₁ := TaskData.cap.inj (at_.data.symm.trans hdata)
      refine ⟨d, [], [], ⟨?_, fun running => ?_, fun _ _ => hjob⟩, archived_nil d, List.nil_prefix,
        .nil, fun running => ⟨running, rfl⟩, fun _ => rfl,
        fun _ => ⟨⟨[], rfl⟩, fun _ _ hidle => ?_⟩⟩
      · rw [setTask_self]
        exact at_.data
      · rw [setTask_self]
        exact at_.error running
      · rw [setTask_self] at hidle
        cases hidle
    · exact moves_of_task at_ (setTask_of_ne _ hu _) fun running => running
  | deactivate u readersOk =>
    obtain rfl := Option.some.inj h
    exact moves_of_task at_ (setTask_of_ne _ (Ne.symm captures) _) fun running => running
  | sigHn u sig readersOk =>
    rw [step] at h
    split_ifs at h with hended
    rw [Bool.not_eq_true] at hended
    obtain ⟨⟨rc, task, more⟩, hsig, rfl⟩ := Option.map_eq_some_iff.1 h
    by_cases hu : u = capTask
    · subst hu
      obtain rfl : readersOk = true := captures rfl
      rw [handled, if_pos ⟨rfl, hended⟩, hsig]
      exact moves_sigHn at_ hended hsig
    · rw [handled, if_neg fun he => hu he.1]
      refine moves_of_task at_ (setTask_of_ne _ (Ne.symm hu) _) fun running => ?_
      exact (setEnded_of_ne _ (Ne.symm hu) _).symm.trans running
  | newPkts signalled =>
    obtain rfl := Option.some.inj h
    obtain ⟨htasks, hended⟩ := tasks_newPktsHn signalled s
    refine moves_of_task at_ (congrFun htasks _) fun running => ?_
    rw [← hended]
    exact running

/-! ## Every run of the server -/

/-- The data of the capture task is what the archive makes of some events, the frames among which
are those handled, and while its loop runs all of those. -/
structure Refines (d₀ : RepData Archive CapReply) (calls : List Call) (s : Sys (n + 1) 5 TaskData)
    (d : RepData Archive CapReply) (events : List ArchiveEvent) (kept : List Call) : Prop where
  at_ : CapAt s d
  archived : Archived events d₀ d
  pre : kept <+: calls
  passed : List.Forall₂ PassedOn kept (framesOf events)
  all : s.ended capTask = false → kept = calls

variable {d' : RepData Archive CapReply} {events more : List ArchiveEvent} {kept kept' : List Call}

theorem refines_start (at_ : CapAt s d₀) : Refines d₀ [] s d₀ [] [] :=
  ⟨at_, archived_nil d₀, List.nil_prefix, .nil, fun _ => rfl⟩

theorem Refines.move (ref : Refines d₀ calls s d events kept) {now : List Call}
    (moves : Moves a now s s' d d' more kept') :
    Refines d₀ (calls ++ now) s' d' (events ++ more) (kept ++ kept') := by
  refine ⟨moves.at_, archived_append ref.archived moves.archived, ?_, ?_, fun h => ?_⟩
  · cases hended : s.ended capTask with
    | false =>
      rw [ref.all hended]
      exact (List.prefix_append_right_inj calls).2 moves.pre
    | true =>
      rw [moves.after hended, List.append_nil]
      exact ref.pre.trans (List.prefix_append _ _)
  · rw [framesOf_append]
    exact List.rel_append ref.passed moves.passed
  · obtain ⟨running, hall⟩ := moves.all h
    rw [ref.all running, hall]

/-- The server before its first request, with one ring of four slots. -/
def fresh (fs : Posix.FileSystem) : Sys 1 5 TaskData where
  rings := fun _ => ⟨4, 0, 0, 0, fun _ => samplePkt 0⟩
  tasks := fun t => ⟨fun _ => 0, 0, 0, 0, false, false, false, false,
    match t with
    | ⟨0, _⟩ => .info infoStart.view.data
    | ⟨1, _⟩ => .cap ⟨.start fs, ⟨0, []⟩, []⟩
    | ⟨2, _⟩ => .avgtr avgtrStart.view.data
    | ⟨3, _⟩ => .hist histView.data
    | ⟨_ + 4, _⟩ => .jitter (taskJitterInit fun _ => true)⟩
  latest := ⟨0, 0, 0, 0⟩
  ended := fun _ => false

theorem quiet_fresh (fs : Posix.FileSystem) : (fresh fs).Quiet := by
  refine ⟨⟨fun r => ⟨Nat.zero_lt_succ 3, Nat.zero_lt_succ 3⟩, fun t h => by cases h⟩,
    fun r hr => ?_⟩
  exact absurd (Fin.fin_one_eq_zero r) hr

/-- A tick, a capture that is asked for, and a wakeup. -/
def oneCapture (data : TaskData) : List (Action 1 5 TaskData) :=
  [.deliver sole (samplePkt 1), .request capTask data, .activate capTask,
    .sigHn capTask .wakeup true]

end Sys

end Tesd
