import Tesd.AvgtrSound

/-!
# What a request for an average trace finds

A complete trace and a corrupt one leave nothing behind for the next request; the handler of the
timer leaves everything.  After a request that finds nothing, the replies depend on the frames
alone.
-/

namespace Tesd

/-- The timer does not expire while a trace is under way. -/
def Timely (e : RepEvent ℕ) (t : AvgtrTask) : Prop :=
  match e with
  | .timer _ => t.view.data.own.recording = false
  | .request _ => True
  | .packet _ => True

namespace AvgtrData

/-- No trace is under way, and nothing of one is left. -/
structure Clean (trace : AvgtrData) : Prop where
  recording : trace.recording = false
  curSize : trace.curSize = 0
  size : trace.size = 0

end AvgtrData

/-- What the task sends on these frames after a request with this timeout, and whether the request
is still pending then. -/
def answers (timeout : ℕ) (calls : List Call) (t : AvgtrTask) : Option (List AvgtrRep × Bool) :=
  (Runs.run (RepTask.step avgtrHandlers) (.request timeout :: RepTask.wakeup calls) t).map fun t' =>
    (t'.view.data.replies.drop t.view.data.replies.length, t'.active)

/-! ## Nothing is left -/

/-- What holds between events. -/
structure Tidy (t : AvgtrTask) : Prop where
  reader : t.reader = !t.active
  awake : t.active = false → t.view.data.own.recording = false
  clean : t.view.data.own.recording = false → t.view.data.own.Clean

section Step

variable {t t' : AvgtrTask} {call : Call}

/-- A frame leaves nothing of a trace behind that is not under way. -/
theorem clean_handle (call : Call) (v : View (RepData AvgtrData AvgtrRep))
    (clean : v.data.own.recording = false → v.data.own.Clean) :
    ((v.handle taskAvgtrPktHn call).2.own.recording = false →
        (v.handle taskAvgtrPktHn call).2.own.Clean) ∧
      ((v.handle taskAvgtrPktHn call).1 = .sleep →
        (v.handle taskAvgtrPktHn call).2.own.recording = false) := by
  rcases avgtr_cases call v with ⟨hskip, -⟩ | ⟨hdrop, -⟩ | ⟨accepts, haccept⟩
  · rw [hskip]
    exact ⟨clean, fun h => nomatch h⟩
  · rw [hdrop]
    exact ⟨fun _ => ⟨rfl, rfl, rfl⟩, fun _ => rfl⟩
  · dsimp only at haccept
    rw [haccept]
    split_ifs with hall
    · exact ⟨fun _ => ⟨rfl, rfl, rfl⟩, fun _ => rfl⟩
    · refine ⟨fun hrec => ?_, fun h => nomatch h⟩
      cases accepts.2.1.symm.trans hrec

theorem tidy_step (e : RepEvent ℕ) (t t' : AvgtrTask) (tidy : Tidy t) (timely : Timely e t)
    (h : RepTask.step avgtrHandlers e t = some t') : Tidy t' := by
  cases e with
  | request timeout =>
    unfold RepTask.step at h
    dsimp only at h
    split_ifs at h with hreader
    cases h
    have hact : t.active = false := by simpa [tidy.reader] using hreader
    have hclean := tidy.clean (tidy.awake hact)
    unfold taskAvgtrReqHn
    dsimp only
    split_ifs with hzero
    · exact ⟨tidy.reader, tidy.awake, tidy.clean⟩
    · exact ⟨rfl, (nomatch ·), fun _ => ⟨hclean.recording, hclean.curSize, hclean.size⟩⟩
  | timer id =>
    unfold RepTask.step at h
    dsimp only at h
    split_ifs at h with harmed
    cases h
    exact ⟨rfl, fun _ => timely, tidy.clean⟩
  | packet call =>
    obtain ⟨hclean, hsleep⟩ := clean_handle call t.view tidy.clean
    unfold RepTask.step at h
    dsimp only at h
    split_ifs at h with active
    · unfold RepTask.packet View.packet avgtrHandlers at h
      dsimp only at h
      cases hrc : (t.view.handle taskAvgtrPktHn call).1 with
      | zero =>
        rw [hrc] at h
        cases h
        refine ⟨tidy.reader, fun hidle => ?_, hclean⟩
        cases active.symm.trans hidle
      | sleep =>
        rw [hrc] at h
        cases h
        exact ⟨rfl, fun _ => hsleep hrc, hclean⟩
      | error =>
        rw [hrc] at h
        cases h
    · cases h
      exact tidy

end Step

/-! ## Replies from the frames alone -/

/-- Two traces that no frame tells apart. -/
structure AvgtrData.Alike (trace trace' : AvgtrData) : Prop where
  recording : trace.recording = trace'.recording
  size : trace.size = trace'.size
  curSize : trace.curSize = trace'.curSize
  bytes : ∀ i < trace.curSize, trace.buf i = trace'.buf i

/-- Two tasks that no frame tells apart, and what they have sent since they had sent `before` and
`before'`. -/
structure Alike (before before' : List AvgtrRep) (v v' : View (RepData AvgtrData AvgtrRep)) :
    Prop where
  own : v.data.own.Alike v'.data.own
  prev : v.data.own.curSize > 0 → v.prevPseqTr = v'.prevPseqTr
  sent : ∃ new, v.data.replies = before ++ new ∧ v'.data.replies = before' ++ new

section Frames

variable {trace trace' : AvgtrData} {before before' : List AvgtrRep}
  {v v' : View (RepData AvgtrData AvgtrRep)}

theorem AvgtrData.Alike.begin (alike : trace.Alike trace') (pkt : Tespkt) :
    (trace.begin pkt).Alike (trace'.begin pkt) := by
  unfold AvgtrData.begin
  rw [alike.recording]
  split_ifs
  · exact ⟨rfl, rfl, alike.curSize, alike.bytes⟩
  · exact alike

theorem AvgtrData.Alike.append (alike : trace.Alike trace') (pkt : Tespkt) (flen : ℕ) :
    (trace.append pkt flen).Alike (trace'.append pkt flen) := by
  unfold AvgtrData.append
  refine ⟨alike.recording, alike.size, by dsimp only; rw [alike.curSize], fun i hi => ?_⟩
  dsimp only at hi ⊢
  rw [← alike.curSize, Slice.write, Slice.write]
  have hle := Nat.mod_le (trace.curSize + (Slot.payload pkt flen).length) (2 ^ 16)
  split_ifs with hoff
  · rw [List.getElem?_eq_getElem (by omega), Option.getD_some, Option.getD_some]
  · exact alike.bytes i (by omega)

theorem begin_curSize (pkt : Tespkt) (trace : AvgtrData) :
    (trace.begin pkt).curSize = trace.curSize := by
  unfold AvgtrData.begin
  split_ifs <;> rfl

/-- The same bytes are sent. -/
theorem AvgtrData.Alike.slice (alike : trace.Alike trace') (all : trace.curSize = trace.size) :
    Slice.slice trace.buf 0 trace.size = Slice.slice trace'.buf 0 trace'.size := by
  rw [← alike.size]
  apply Slice.slice_congr
  intro i _ hi
  exact alike.bytes i (by omega)

/-- The end of a trace makes the same of tasks that are alike. -/
theorem alike_done {tr tr' mca mca' : ℕ} {d d' : RepData AvgtrData AvgtrRep} {rep : AvgtrRep}
    (sent : ∃ new, d.replies = before ++ new ∧ d'.replies = before' ++ new) :
    Alike before before' ⟨mca, tr, (avgtrDone rep d).2⟩ ⟨mca', tr', (avgtrDone rep d').2⟩ := by
  obtain ⟨new, hd, hd'⟩ := sent
  refine ⟨⟨rfl, rfl, rfl, fun i hi => absurd hi (Nat.not_lt_zero i)⟩, fun hpos => ?_,
    new ++ [rep], ?_, ?_⟩
  · exact absurd hpos (Nat.not_lt_zero 0)
  · change d.replies ++ [rep] = _
    rw [hd, List.append_assoc]
  · change d'.replies ++ [rep] = _
    rw [hd', List.append_assoc]

theorem alike_packet (alike : Alike before before' v v') (call : Call) :
    (v.packet taskAvgtrPktHn call).1 = (v'.packet taskAvgtrPktHn call).1 ∧
      Alike before before' (v.packet taskAvgtrPktHn call).2 (v'.packet taskAvgtrPktHn call).2 := by
  unfold View.packet View.seen View.handle taskAvgtrPktHn
  have hopen := alike.own.begin call.slot.pkt
  by_cases avg : call.slot.pkt.isTraceAvg = true
  · have hlong := Tespkt.isTraceLong_of_isTraceAvg avg
    have htr : (!call.slot.pkt.isMca && call.slot.pkt.isTraceLong) = true := by
      rw [hlong, Tespkt.isMca_of_isTraceLong hlong]
      rfl
    have hseq : ((v.data.own.begin call.slot.pkt).curSize > 0 ∧
          ((call.slot.pkt.pseq : ℤ) - v.prevPseqTr) % 2 ^ 16 ≠ 1) ↔
        ((v'.data.own.begin call.slot.pkt).curSize > 0 ∧
          ((call.slot.pkt.pseq : ℤ) - v'.prevPseqTr) % 2 ^ 16 ≠ 1) := by
      rw [← hopen.curSize]
      apply and_congr_right
      intro hpos
      rw [begin_curSize] at hpos
      rw [alike.prev hpos]
    have happ := hopen.append call.slot.pkt call.slot.flen
    simp only [avg, htr, Bool.not_true, Bool.false_eq_true, if_false, if_true]
    rw [hopen.recording]
    by_cases hrec : (!(v'.data.own.begin call.slot.pkt).recording) = true
    · rw [if_pos hrec, if_pos hrec]
      exact ⟨rfl, hopen, fun _ => rfl, alike.sent⟩
    · rw [if_neg hrec, if_neg hrec]
      by_cases herr : call.slot.err ≠ 0
      · rw [if_pos herr, if_pos herr]
        exact ⟨rfl, alike_done alike.sent⟩
      · rw [if_neg herr, if_neg herr]
        by_cases hgap : (v.data.own.begin call.slot.pkt).curSize > 0 ∧
            ((call.slot.pkt.pseq : ℤ) - v.prevPseqTr) % 2 ^ 16 ≠ 1
        · rw [if_pos hgap, if_pos (hseq.1 hgap)]
          exact ⟨rfl, alike_done alike.sent⟩
        · rw [if_neg hgap, if_neg (mt hseq.2 hgap)]
          by_cases hall : ((v.data.own.begin call.slot.pkt).append call.slot.pkt
              call.slot.flen).curSize =
              ((v.data.own.begin call.slot.pkt).append call.slot.pkt call.slot.flen).size
          · rw [if_pos hall, if_pos (by rw [← happ.curSize, ← happ.size]; exact hall),
              happ.slice hall]
            exact ⟨rfl, alike_done alike.sent⟩
          · rw [if_neg hall, if_neg (by rw [← happ.curSize, ← happ.size]; exact hall)]
            exact ⟨rfl, happ, fun _ => rfl, alike.sent⟩
  · simp only [avg, Bool.not_false, if_true]
    refine ⟨trivial, alike.own, fun hpos => ?_, alike.sent⟩
    dsimp only
    rw [alike.prev hpos]

theorem alike_feed (alike : Alike before before' v v') (calls : List Call) :
    (v.feed taskAvgtrPktHn calls).1 = (v'.feed taskAvgtrPktHn calls).1 ∧
      Alike before before' (v.feed taskAvgtrPktHn calls).2 (v'.feed taskAvgtrPktHn calls).2 := by
  induction calls generalizing v v' with
  | nil => exact ⟨rfl, alike⟩
  | cons call calls ih =>
    obtain ⟨hrc, hnext⟩ := alike_packet alike call
    rw [View.feed, View.feed, hrc]
    split_ifs with hzero
    · exact ih hnext
    · exact ⟨hrc, hnext⟩

end Frames

/-- The answers to a request come from feeding the packet handler what follows it. -/
theorem answers_eq_feed {t : AvgtrTask} {timeout : ℕ} (calls : List Call) (pos : timeout ≠ 0)
    (reader : t.reader = true) : answers timeout calls t =
      match ((taskAvgtrReqHn timeout { t with requests := t.requests + 1 }).view.feed
        taskAvgtrPktHn calls) with
      | (.zero, v) => some (v.data.replies.drop t.view.data.replies.length, true)
      | (.sleep, v) => some (v.data.replies.drop t.view.data.replies.length, false)
      | (.error, _) => none := by
  have hact : (taskAvgtrReqHn timeout { t with requests := t.requests + 1 }).active = true := by
    unfold taskAvgtrReqHn
    rw [if_neg pos]
    rfl
  rw [answers, Runs.run, RepTask.step, if_pos reader]
  change (Runs.run (RepTask.step avgtrHandlers) (RepTask.wakeup calls)
    (taskAvgtrReqHn timeout { t with requests := t.requests + 1 })).map _ = _
  rw [RepTask.run_wakeup hact]
  rcases hfeed : View.feed taskAvgtrPktHn calls
    (taskAvgtrReqHn timeout { t with requests := t.requests + 1 }).view with ⟨rc, v⟩
  change View.feed avgtrHandlers.pktHn calls _ = _ at hfeed
  rw [hfeed]
  cases rc with
  | zero => exact congrArg some (Prod.ext rfl hact)
  | sleep => rfl
  | error => rfl

/-- A request finds tasks alike that have nothing left of a trace. -/
theorem alike_request {t t' : AvgtrTask} {timeout : ℕ} (pos : timeout ≠ 0)
    (clean : t.view.data.own.Clean) (clean' : t'.view.data.own.Clean) :
    Alike t.view.data.replies t'.view.data.replies
      (taskAvgtrReqHn timeout { t with requests := t.requests + 1 }).view
      (taskAvgtrReqHn timeout { t' with requests := t'.requests + 1 }).view := by
  unfold taskAvgtrReqHn
  rw [if_neg pos, if_neg pos]
  refine ⟨⟨clean.recording.trans clean'.recording.symm, clean.size.trans clean'.size.symm,
    clean.curSize.trans clean'.curSize.symm, ?_⟩, ?_, [], ?_, ?_⟩
  · intro i hi
    have hzero : i < t.view.data.own.curSize := hi
    rw [clean.curSize] at hzero
    exact absurd hzero (Nat.not_lt_zero i)
  · intro hpos
    have hzero : t.view.data.own.curSize > 0 := hpos
    rw [clean.curSize] at hzero
    exact absurd hzero (Nat.not_lt_zero 0)
  · exact (List.append_nil _).symm
  · exact (List.append_nil _).symm

/-- Tasks that have nothing left of a trace give the same answers. -/
theorem answers_of_clean {t t' : AvgtrTask} {timeout : ℕ} (calls : List Call) (pos : timeout ≠ 0)
    (reader : t.reader = true) (reader' : t'.reader = true) (clean : t.view.data.own.Clean)
    (clean' : t'.view.data.own.Clean) : answers timeout calls t = answers timeout calls t' := by
  rw [answers_eq_feed calls pos reader, answers_eq_feed calls pos reader']
  obtain ⟨hrc, hlast⟩ := alike_feed (alike_request pos clean clean') calls
  revert hrc hlast
  generalize View.feed taskAvgtrPktHn calls
    (taskAvgtrReqHn timeout { t with requests := t.requests + 1 }).view = res
  generalize View.feed taskAvgtrPktHn calls
    (taskAvgtrReqHn timeout { t' with requests := t'.requests + 1 }).view = res'
  obtain ⟨rc, v⟩ := res
  obtain ⟨rc', v'⟩ := res'
  rintro rfl ⟨-, -, new, hv, hv'⟩
  dsimp only at hv hv'
  cases rc with
  | zero => simp only [hv, hv', List.drop_left]
  | sleep => simp only [hv, hv', List.drop_left]
  | error => rfl

/-- A request that is accepted finds nothing of another trace and is answered as one of a task that
has just been initialised, if no timer has expired while a trace was under way. -/
theorem clean_request (t t' : AvgtrTask) (start : t.view.data.own = taskAvgtrInit)
    (idle : t.active = false) (listening : t.reader = true) (evs : List (RepEvent ℕ))
    (timely : Runs.Along (RepTask.step avgtrHandlers) Timely evs t)
    (h : Runs.run (RepTask.step avgtrHandlers) evs t = some t') (reader : t'.reader = true) :
    t'.view.data.own.Clean ∧
      ∀ timeout calls, timeout ≠ 0 → answers timeout calls t' = answers timeout calls avgtrStart := by
  have tidy : Tidy t := by
    refine ⟨by rw [idle, listening]; rfl, fun _ => ?_, fun _ => ?_⟩
    · rw [start]
      rfl
    · rw [start]
      exact ⟨rfl, rfl, rfl⟩
  have tidy' := Runs.invariant_of_along tidy_step tidy timely h
  have hact : t'.active = false := by simpa [tidy'.reader] using reader
  have hclean := tidy'.clean (tidy'.awake hact)
  refine ⟨hclean, fun timeout calls pos => ?_⟩
  exact answers_of_clean calls pos reader rfl hclean ⟨rfl, rfl, rfl⟩

/-- A complete trace, and a request that times out before any frame. -/
def twoRequests : List (RepEvent ℕ) := twoFrames ++ [.request 7, .timer 2]

theorem clean_request_two : ∃ t', Runs.run (RepTask.step avgtrHandlers) twoRequests avgtrStart = some t' ∧
    t'.view.data.replies.map AvgtrRep.status = [TES_AVGTR_REQ_OK, TES_AVGTR_REQ_ETOUT] ∧
    t'.view.data.own.Clean ∧
    answers 9 [⟨traceFrame 1 0 8, 0⟩] t' = answers 9 [⟨traceFrame 1 0 8, 0⟩] avgtrStart := by
  obtain ⟨t', hrun, hrep, hreader⟩ : ∃ t',
      Runs.run (RepTask.step avgtrHandlers) twoRequests avgtrStart = some t' ∧
      t'.view.data.replies.map AvgtrRep.status = [TES_AVGTR_REQ_OK, TES_AVGTR_REQ_ETOUT] ∧
      t'.reader = true := ⟨_, rfl, rfl, rfl⟩
  have htimely : Runs.Along (RepTask.step avgtrHandlers) Timely twoRequests avgtrStart := by
    refine ⟨trivial, fun t₁ h₁ => ⟨trivial, fun t₂ h₂ => ⟨trivial, fun t₃ h₃ => ⟨trivial,
      fun t₄ h₄ => ⟨?_, fun _ _ => trivial⟩⟩⟩⟩⟩
    obtain rfl := Option.some.inj h₁
    obtain rfl := Option.some.inj h₂
    obtain rfl := Option.some.inj h₃
    obtain rfl := Option.some.inj h₄
    rfl
  obtain ⟨hclean, hanswers⟩ :=
    clean_request avgtrStart t' rfl rfl rfl twoRequests htimely hrun hreader
  exact ⟨t', hrun, hrep, hclean, hanswers 9 _ (by decide)⟩

/-- A request that times out after the first of two frames. -/
def lateFrames : List (RepEvent ℕ) := [.request 5, .packet ⟨traceFrame 1 0 16, 0⟩, .timer 1]

theorem not_clean_request :
    ¬ ∀ (evs : List (RepEvent ℕ)) (t' : AvgtrTask),
      Runs.run (RepTask.step avgtrHandlers) evs avgtrStart = some t' → t'.reader = true →
      t'.view.data.own.Clean := by
  intro h
  obtain ⟨t', hrun, hreader, hrec⟩ : ∃ t',
      Runs.run (RepTask.step avgtrHandlers) lateFrames avgtrStart = some t' ∧ t'.reader = true ∧
      t'.view.data.own.recording = true := ⟨_, rfl, rfl, rfl⟩
  have hclean := (h lateFrames t' hrun hreader).recording
  cases hclean.symm.trans hrec

end Tesd
