import Tesd.CapIdle
import Tesd.CapTask
import Tesd.JobFlag
import Tesd.StreamComplete

/-!
# The stream of the capture task between two frames

`task_cap_pkt_hn` keeps track of one multi-frame stream, and asserts that what it has of the stream
makes sense.  Either there is no stream under way, or some of it has come and some is missing.
-/

namespace Tesd

/-- No stream is under way, or one is that has begun and is not complete. -/
def CurStream.Tracked (cs : CurStream) : Prop :=
  (cs.size = 0 ∧ cs.curSize = 0) ∨ (0 < cs.curSize ∧ cs.curSize < cs.size ∧ cs.discard = false)

/-- The assertions of `task_cap_pkt_hn` where it updates the stream index, as they come. -/
def Core.streamAsserts (f : Frame) (c : Core) : Bool :=
  if f.err ≠ 0 then true
  else
    let isTrace := f.pkt.isTraceLong
    let isMca := f.pkt.isMca
    let isHeader := f.pkt.isHeader
    let entry :=
      if c.curStream.size > 0 then
        decide (c.curStream.curSize > 0) && decide (c.curStream.curSize < c.curStream.size) &&
          !c.curStream.discard
      else decide (c.curStream.curSize = 0)
    let continues := c.continuesStream f
    let starts := c.startsStream f
    let interrupts := c.interruptsStream f
    let c := if interrupts then c.discardStream else c
    let interrupted := !interrupts || (isHeader || decide (f.missed > 0) ||
      (isTrace && !c.curStream.isEvent) || (isMca && c.curStream.isEvent) || (!isTrace && !isMca))
    let branch :=
      if starts then true
      else if continues then !c.curStream.discard && decide (f.missed = 0)
      else if isMca || isTrace then
        if !interrupts then !isHeader && decide (c.curStream.size = 0) else true
      else true
    entry && interrupted && branch

/-- The same for a call of the handler, which gets there only while the job is recording. -/
def Core.pktAsserts (f : Frame) (c : Core) : Bool :=
  let c := c.arrive f
  if c.recording = false then true else ((c.count f).indexFrame f).1.streamAsserts f

namespace CurStream

variable {cs : CurStream}

theorem tracked_of_zero (size : cs.size = 0) (curSize : cs.curSize = 0) : cs.Tracked :=
  Or.inl ⟨size, curSize⟩

theorem Tracked.curSize_of_size (tracked : cs.Tracked) (size : cs.size = 0) : cs.curSize = 0 := by
  rcases tracked with ⟨-, h⟩ | ⟨-, h, -⟩
  · exact h
  · omega

theorem Tracked.of_busy (tracked : cs.Tracked) (busy : 0 < cs.size) :
    0 < cs.curSize ∧ cs.curSize < cs.size ∧ cs.discard = false := by
  rcases tracked with ⟨h, -⟩ | h
  · omega
  · exact h

end CurStream

section Frame

variable {f : Frame} {c : Core}

/-! ## One frame -/

/-- The bytes of a frame that has been taken for one of the stream. -/
theorem tracked_checkStream (pos : 0 < c.curStream.curSize) (keep : c.curStream.discard = false)
    (isTrace : Bool) : (c.checkStream isTrace).1.curStream.Tracked := by
  unfold Core.checkStream
  by_cases hlong : c.curStream.curSize > c.curStream.size
  · rw [if_pos hlong]
    exact CurStream.tracked_of_zero rfl rfl
  · by_cases hfull : c.curStream.curSize = c.curStream.size
    · rw [if_neg hlong, if_pos hfull]
      exact CurStream.tracked_of_zero rfl rfl
    · rw [if_neg hlong, if_neg hfull]
      exact Or.inr ⟨pos, by dsimp only; omega, keep⟩

/-- What is left of the stream when a frame does not continue it. -/
theorem interrupted_of_tracked (tracked : c.curStream.Tracked) (hc : c.continuesStream f = false) :
    (c.interrupted f).curStream.size = 0 ∧ (c.interrupted f).curStream.curSize = 0 := by
  obtain ⟨-, hsize, hcur | ⟨hidle, hcur⟩⟩ := interrupted_curStream hc
  · exact ⟨hsize, hcur⟩
  · exact ⟨hsize, hcur.trans (tracked.curSize_of_size hidle)⟩

theorem tracked_indexStream (tracked : c.curStream.Tracked) (start : ℕ) (fidx : Fidx) :
    (c.indexStream f start fidx).1.curStream.Tracked := by
  by_cases ok : f.err = 0
  · have hpos := paylen_pos ok
    cases hs : c.startsStream f with
    | true =>
      rw [indexStream_of_starts start fidx ok hs]
      refine tracked_checkStream ?_ rfl _
      show 0 < c.curStream.curSize + f.paylen
      omega
    | false =>
      cases hc : c.continuesStream f with
      | true =>
        rw [indexStream_of_continues start fidx ok hc]
        have hbusy : 0 < c.curStream.size := by
          simp only [Core.continuesStream, Bool.and_eq_true, decide_eq_true_iff] at hc
          exact hc.1.1.2
        have hkeep := (tracked.of_busy hbusy).2.2
        refine tracked_checkStream ?_ ?_ _
        · show 0 < c.curStream.curSize + f.paylen
          omega
        · exact hkeep
      | false =>
        obtain ⟨hsize, hcur⟩ := interrupted_of_tracked tracked hc
        by_cases kind : f.pkt.isMca = true ∨ f.pkt.isTraceLong = true
        · rw [indexStream_of_orphan start fidx ok hs hc kind]
          exact CurStream.tracked_of_zero hsize hcur
        · rw [not_or, Bool.not_eq_true, Bool.not_eq_true] at kind
          cases tick : f.pkt.isTick with
          | true =>
            rw [indexStream_of_tick start fidx ok hs hc kind.1 kind.2 tick]
            exact CurStream.tracked_of_zero hsize hcur
          | false =>
            rw [indexStream_of_event start fidx ok hs hc kind.1 kind.2 tick]
            exact CurStream.tracked_of_zero hsize hcur
  · rw [indexStream_of_err ok]
    exact tracked

theorem isEvent_discardStream (c : Core) :
    c.discardStream.curStream.isEvent = c.curStream.isEvent := rfl

/-- A frame that interrupts the stream is a header, does not follow, or is of another kind. -/
theorem reason_of_interrupts (h : c.interruptsStream f = true) :
    (f.pkt.isHeader || decide (f.missed > 0) || (f.pkt.isTraceLong && !c.curStream.isEvent) ||
      (f.pkt.isMca && c.curStream.isEvent) || (!f.pkt.isTraceLong && !f.pkt.isMca)) = true := by
  rw [Core.interruptsStream, Bool.and_eq_true, Bool.not_eq_true'] at h
  obtain ⟨hc, hbusy⟩ := h
  by_contra hno
  simp only [Bool.not_eq_true, Bool.or_eq_false_iff] at hno
  obtain ⟨⟨⟨⟨hheader, hmissed⟩, htrace⟩, hmca⟩, hkind⟩ := hno
  have hsame : ((f.pkt.isTraceLong && c.curStream.isEvent) ||
      (f.pkt.isMca && !c.curStream.isEvent)) = true := by
    cases hev : c.curStream.isEvent <;> simp_all
  have hnext : decide (f.missed = 0) = true := by
    rw [decide_eq_false_iff_not, Nat.not_lt, Nat.le_zero] at hmissed
    exact decide_eq_true hmissed
  rw [Core.continuesStream, hsame, hbusy, hheader, hnext] at hc
  cases hc

theorem streamAsserts_of_tracked (tracked : c.curStream.Tracked) : c.streamAsserts f = true := by
  unfold Core.streamAsserts
  by_cases ok : f.err = 0
  · rw [if_neg (not_not.2 ok)]
    dsimp only
    rw [Bool.and_eq_true, Bool.and_eq_true]
    refine ⟨⟨?_, ?_⟩, ?_⟩
    · split_ifs with hbusy
      · obtain ⟨hpos, hlt, hkeep⟩ := tracked.of_busy hbusy
        simp [hpos, hlt, hkeep]
      · exact decide_eq_true (tracked.curSize_of_size (by omega))
    · cases hi : c.interruptsStream f with
      | false => rfl
      | true =>
        rw [if_pos rfl, isEvent_discardStream]
        exact reason_of_interrupts hi
    · cases hs : c.startsStream f with
      | true => rfl
      | false =>
        cases hc : c.continuesStream f with
        | true =>
          rw [interruptsStream_of_continuesStream hc]
          simp only [Core.continuesStream, Bool.and_eq_true, decide_eq_true_iff] at hc
          simp [(tracked.of_busy hc.1.1.2).2.2, hc.2]
        | false =>
          -- neither begun nor continued: the frame interrupts the stream, or there is none
          cases hi : c.interruptsStream f with
          | true => simp
          | false =>
            have hidle : c.curStream.size = 0 := by
              rw [Core.interruptsStream, hc, Bool.not_false, Bool.true_and,
                decide_eq_false_iff_not] at hi
              omega
            cases hkind : (f.pkt.isMca || f.pkt.isTraceLong) with
            | false => simp
            | true =>
              rw [Core.startsStream, Bool.or_comm, hkind, Bool.true_and, hidle] at hs
              simp_all
  · rw [if_pos ok]

end Frame

/-! ## One call of a handler -/

section Handlers

variable {fuel : ℕ} {env : Env} {f : Frame} {job job₁ : Job} {failed : Bool}

theorem queueDue_core {due : Option (Dset × List UInt8)}
    (h : job.queueDue fuel due = some (failed, job₁)) : job₁.core = job.core := by
  cases due with
  | none =>
    obtain ⟨-, rfl⟩ := Prod.mk.inj (Option.some.inj h)
    rfl
  | some due => exact (queue_queued h).1

theorem finish_curStream {report : Report} (h : job.finish fuel env = some (report, job₁)) :
    job₁.core.curStream = ⟨0, 0, 0, 0, false, false⟩ := by
  unfold Job.finish at h
  split at h
  · cases h
  · obtain ⟨-, rfl⟩ := Prod.mk.inj (Option.some.inj h)
    rfl

theorem arrive_curStream (f : Frame) (c : Core) : (c.arrive f).curStream = c.curStream := by
  unfold Core.arrive
  split_ifs <;> rfl

theorem indexFrame_curStream (f : Frame) (c : Core) :
    (((c.arrive f).count f).indexFrame f).1.curStream = c.curStream := by
  obtain ⟨_, _, _, h⟩ := indexFrame_frame f ((c.arrive f).count f)
  rw [h]
  exact arrive_curStream f c

/-- A call of the packet handler for a frame, whether it goes on or ends the job. -/
theorem tracked_taskCapPktHn {res : Option Report} (tracked : job.core.curStream.Tracked)
    (h : taskCapPktHn fuel env f job = some (res, job₁)) : job₁.core.curStream.Tracked := by
  by_cases hrec : (job.core.arrive f).recording = true
  · rw [taskCapPktHn_eq fuel env f job hrec] at h
    obtain ⟨⟨failed₁, j₁⟩, h₁, h⟩ := Option.bind_eq_some_iff.1 h
    have c₁ : j₁.core.curStream = job.core.curStream :=
      (congrArg Core.curStream (queueDue_core h₁)).trans (indexFrame_curStream f job.core)
    have tracked₁ := @tracked_indexStream f j₁.core (c₁ ▸ tracked)
    obtain ⟨⟨failed₂, j₂⟩, h₂, h⟩ := Option.bind_eq_some_iff.1 h
    obtain ⟨⟨failed₃, j₃⟩, h₃, h⟩ := Option.bind_eq_some_iff.1 h
    obtain ⟨⟨failed₄, j₄⟩, h₄, h⟩ := Option.bind_eq_some_iff.1 h
    have c₄ := (queue_queued h₄).1.trans ((queue_queued h₃).1.trans (queueDue_core h₂))
    split_ifs at h
    · obtain ⟨⟨report, j₅⟩, h₅, heq⟩ := Option.bind_eq_some_iff.1 h
      obtain ⟨-, rfl⟩ := Prod.mk.inj (Option.some.inj heq)
      rw [finish_curStream h₅]
      exact CurStream.tracked_of_zero rfl rfl
    · obtain ⟨-, rfl⟩ := Prod.mk.inj (Option.some.inj h)
      rw [c₄]
      exact tracked₁ _ _
  · rw [(taskCapPktHn_of_not_recording hrec h).2]
    exact tracked

end Handlers

namespace CapData

variable {w : CapWorld} {req : CapRequest} {d d' : CapData} {fs : Posix.FileSystem}

theorem openAll_curStream (w : CapWorld) (excl : Bool) (dss : List Dset) (d : CapData)
    (fs : Posix.FileSystem) :
    (d.openAll w excl dss fs).2.1.job.core.curStream = d.job.core.curStream := by
  induction dss generalizing d fs with
  | nil => rfl
  | cons ds dss ih =>
    rw [openAll]
    obtain ⟨c, -, ⟨fs', hfail⟩ | ⟨p, contents, fs', hopen⟩⟩ := openAiobuf_cases w excl ds d fs
    · rw [hfail]
      rfl
    · rw [hopen]
      exact ih _ fs'

theorem closeFiles_curStream (dss : List Dset) (d : CapData) (fs : Posix.FileSystem) :
    (d.closeFiles dss fs).1.job.core.curStream = d.job.core.curStream := by
  induction dss generalizing d fs with
  | nil => rfl
  | cons ds dss ih =>
    rw [closeFiles, ih]
    unfold closeAiobuf
    split <;> rfl

theorem start_curStream (w : CapWorld) (d : CapData) (fs : Posix.FileSystem) :
    (d.start w fs).data.job.core.curStream = d.job.core.curStream := by
  have hopen : (d.openFiles w d.nooverwrite fs).2.1.job.core.curStream = d.job.core.curStream :=
    openAll_curStream w d.nooverwrite Dset.all _ fs
  unfold start
  split
  next d₁ fs₁ heq =>
    rw [heq] at hopen
    generalize (if fs₁.accessOk w.rights d₁.statfilename then
      fs₁.unlink w.rights d₁.statfilename else (none, fs₁)) = q
    dsimp only
    split_ifs
    · dsimp only
      rw [closeFiles_curStream]
      exact hopen
    · exact hopen
  next rc d₁ fs₁ _ heq =>
    rw [heq] at hopen
    dsimp only
    rw [closeFiles_curStream]
    exact hopen

theorem tracked_query (tracked : d.job.core.curStream.Tracked) (w : CapWorld)
    (fs : Posix.FileSystem) : (d.query w fs).data.job.core.curStream.Tracked := by
  unfold query
  generalize (if d.job.core.noconvert = true then (CapStatus.ok, fs) else w.conv d fs) = r
  dsimp only
  split_ifs
  · exact tracked
  · rw [statsRead_eq]
    split_ifs
    · exact CurStream.tracked_of_zero rfl rfl
    · exact tracked

/-- A request leaves the stream alone, or resets it. -/
theorem tracked_taskCapReqHn {out : CapOutcome} (tracked : d.job.core.curStream.Tracked)
    (h : taskCapReqHn w req d fs = some out) : out.data.job.core.curStream.Tracked := by
  have hvalid := (sameJob_isReqValid w ((d.dbgAssert !d.job.core.recording).recv req)).curStream
  rcases taskCapReqHn_cases h with ⟨rc, d₁, hchecks, -, rfl⟩ | ⟨d₁, hchecks, hrest⟩
  · rw [hchecks] at hvalid
    exact hvalid ▸ tracked
  · rw [hchecks] at hvalid
    have tracked₁ : d₁.job.core.curStream.Tracked := hvalid ▸ tracked
    rcases hrest with ⟨rc, d₂, fs₁, hnames, -, rfl⟩ | ⟨d₂, fs₁, hnames, rfl⟩
    · exact (sameJob_constructFilenames hnames).curStream ▸ tracked₁
    · have tracked₂ : d₂.job.core.curStream.Tracked :=
        (sameJob_constructFilenames hnames).curStream ▸ tracked₁
      split_ifs
      · exact tracked_query tracked₂ w fs₁
      · rw [start_curStream]
        exact tracked₂

end CapData

/-! ## Runs -/

namespace CapTask

open RepTask

/-- The job in progress, or what the last one left. -/
def job (t : CapTask) : Job := t.view.data.own.data.job

theorem tracked_step (e : RepEvent CapCall) (t t' : CapTask)
    (tracked : t.job.core.curStream.Tracked) (h : step capHandlers e t = some t') :
    t'.job.core.curStream.Tracked := by
  cases e with
  | request call =>
    unfold step at h
    dsimp only at h
    split_ifs at h
    change capReqHn call _ = some t' at h
    unfold capReqHn at h
    split at h
    · cases h
    next out hout =>
      have hout := CapData.tracked_taskCapReqHn tracked hout
      obtain rfl := Option.some.inj h
      cases out.reply <;> split_ifs <;> exact hout
  | timer id =>
    unfold step at h
    dsimp only at h
    split_ifs at h
    obtain rfl := Option.some.inj h
    exact tracked
  | packet call =>
    unfold step at h
    dsimp only at h
    split_ifs at h
    · unfold packet View.packet at h
      have hpkt : capHandlers.pktHn = capPktHn := rfl
      rw [hpkt, capPktHn_of_call call t.view] at h
      generalize hhn : taskCapPktHn _ _ _ _ = res at h
      cases res with
      | none => cases h
      | some res =>
        obtain ⟨report, job'⟩ := res
        have tracked' := tracked_taskCapPktHn tracked hhn
        cases report with
        | none =>
          obtain rfl := Option.some.inj h
          exact tracked'
        | some report =>
          obtain rfl := Option.some.inj h
          exact tracked'
    · obtain rfl := Option.some.inj h
      exact tracked

theorem pktAsserts_of_tracked {c : Core} (tracked : c.curStream.Tracked) (f : Frame) :
    c.pktAsserts f = true := by
  unfold Core.pktAsserts
  dsimp only
  split_ifs
  · rfl
  · apply streamAsserts_of_tracked
    rwa [indexFrame_curStream]

/-- After any run of the capture task, over any number of jobs, the stream that it follows makes
sense, and the assertions about it hold for whatever frame is next. -/
theorem streams_tracked (evs : List (RepEvent CapCall)) (t : CapTask)
    (h : Runs.run (step capHandlers) evs capStart = some t) :
    t.job.core.curStream.Tracked ∧ ∀ f : Frame, t.job.core.pktAsserts f = true := by
  have tracked : t.job.core.curStream.Tracked :=
    Runs.invariant tracked_step (CurStream.tracked_of_zero rfl rfl) h
  exact ⟨tracked, pktAsserts_of_tracked tracked⟩

/-- A request for a capture, the tick that starts it, and the header frame of a trace. -/
def traceBegun : List (RepEvent CapCall) :=
  [.request ⟨fineWorld, captureOf "a".toList, oneFile "b".toList [], 4, smallEnv, fun _ => 0⟩,
    .packet ⟨.sample 48 0xB5 48 0 0 3 2 [1], 0⟩, .packet ⟨.sample 40 0xB5 40 0 0 1 12 [24, 0, 4], 0⟩]

theorem streams_tracked_trace : ∃ t : CapTask, Runs.run (step capHandlers) traceBegun capStart = some t ∧
    t.job.core.curStream.size = 24 ∧ t.job.core.curStream.Tracked ∧
    ∀ f : Frame, t.job.core.pktAsserts f = true := by
  have hrun : (Runs.run (step capHandlers) traceBegun capStart).map
      (fun t : CapTask => t.job.core.curStream.size) = some 24 := by
    decide +kernel
  obtain ⟨t, ht, hsize⟩ := Option.map_eq_some_iff.1 hrun
  exact ⟨t, ht, hsize, streams_tracked traceBegun t ht⟩

end CapTask

end Tesd
