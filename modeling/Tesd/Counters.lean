import Tesd.StreamComplete
import Tesd.TickIndex

/-!
# What a job counts

`follow` is the stream state machine of the handler without places and sizes: of an unfinished
stream it knows the kind and the bytes still to come.  The recorder's counters, and the lengths of
its stream indices, are what one counts in the frames with it.
-/

namespace Tesd

open Records

namespace Frame

/-- The kind of streams that the frame belongs to. -/
def kind (f : Frame) : Option Kind :=
  if f.pkt.isTraceLong then some .trace else if f.pkt.isMca then some .hist else none

/-- A valid frame of short events. -/
def validShort (f : Frame) : Bool :=
  decide (f.err = 0) && f.kind.isNone && !f.pkt.isTick

end Frame

/-! ## The specification -/

/-- A stream that lacked so many bytes, after `n` more of them: what is unfinished, and the streams
that are completed. -/
def advance (k : Kind) (left n : ℕ) : Option (Kind × ℕ) × List Kind :=
  if n < left then (some (k, left - n), []) else if n = left then (none, [k]) else (none, [])

/-- The same for a frame.  A header that finds a stream unfinished is ignored, and so is a frame
that continues nothing; a bad frame is no part of any stream. -/
def follow (f : Frame) (unfinished : Option (Kind × ℕ)) : Option (Kind × ℕ) × List Kind :=
  if f.err ≠ 0 then (unfinished, [])
  else
    match f.kind, unfinished with
    | some k, none =>
      if f.pkt.isHeader then advance k (k.declared f.pkt) f.paylen else (none, [])
    | some k, some (k', left) =>
      if f.pkt.isHeader = false ∧ f.missed = 0 ∧ k' = k then advance k left f.paylen
      else (none, [])
    | none, _ => (none, [])

/-- The streams that the frames complete. -/
def finished : List Frame → Option (Kind × ℕ) → List Kind
  | [], _ => []
  | f :: fs, unfinished => (follow f unfinished).2 ++ finished fs (follow f unfinished).1

/-- The events of the short-event frames. -/
def shortEvents (fs : List Frame) : ℕ :=
  ((fs.filter Frame.validShort).map fun f => f.pkt.eventNums).sum

/-- What there is to count in the frames that are recorded. -/
def counters (fs : List Frame) : Stats where
  ticks := fs.countP Frame.validTick
  events := (finished fs none).count .trace + shortEvents fs
  traces := (finished fs none).count .trace
  hists := (finished fs none).count .hist
  frames := fs.length
  framesLost := (fs.map Frame.missed).sum
  framesDropped := 0
  errors := 0

/-! ## The stream that the recorder follows -/

namespace CurStream

/-- The stream as the specification sees it. -/
def unfinished (cs : CurStream) : Option (Kind × ℕ) :=
  if cs.size = 0 then none
  else some (if cs.isEvent then .trace else .hist, cs.size - cs.curSize)

/-- What the handler asserts of the stream between two frames. -/
structure Sane (cs : CurStream) : Prop where
  idle : cs.size = 0 → cs.curSize = 0
  busy : 0 < cs.size → cs.curSize < cs.size

variable {cs : CurStream}

theorem unfinished_of_idle (idle : cs.size = 0) : cs.unfinished = none := if_pos idle

theorem unfinished_of_busy {k : Kind} (busy : 0 < cs.size) (same : cs.isEvent = k.isTrace) :
    cs.unfinished = some (k, cs.size - cs.curSize) := by
  rw [unfinished, if_neg (by omega), same]
  cases k <;> rfl

theorem sane_of_idle (idle : cs.size = 0) (empty : cs.curSize = 0) : cs.Sane :=
  ⟨fun _ => empty, fun busy => by omega⟩

end CurStream

theorem kind_eq_some {f : Frame} {k : Kind} : f.kind = some k ↔ k.Is f.pkt := by
  unfold Frame.kind
  constructor
  · intro h
    split_ifs at h with trace hist
    · obtain rfl := Option.some.inj h
      exact trace
    · obtain rfl := Option.some.inj h
      exact hist
  · intro is
    rw [Kind.isTraceLong_eq is, Kind.isMca_eq is]
    cases k <;> rfl

theorem kind_eq_none {f : Frame} (h : f.kind = none) :
    f.pkt.isMca = false ∧ f.pkt.isTraceLong = false := by
  unfold Frame.kind at h
  split_ifs at h with trace hist
  exact ⟨Bool.eq_false_iff.2 hist, Bool.eq_false_iff.2 trace⟩

section Follow

variable {k : Kind} {f : Frame} {r : Recorder} {cs : CurStream}

theorem follow_of_err (bad : f.err ≠ 0) (unfinished : Option (Kind × ℕ)) :
    follow f unfinished = (unfinished, []) := if_pos bad

theorem follow_of_plain (ok : f.err = 0) (plain : f.kind = none)
    (unfinished : Option (Kind × ℕ)) : follow f unfinished = (none, []) := by
  unfold follow
  rw [if_neg (not_not.2 ok), plain]

/-- A frame that the recorder takes for one of a stream brings it closer to its end. -/
theorem follow_of_takes (sane : r.core.curStream.Sane) (ok : f.err = 0)
    (takes : r.Takes k f cs) : ∃ left,
      follow f r.core.curStream.unfinished = advance k left f.paylen ∧
        cs.curSize + left = cs.size + f.paylen := by
  have hkind := kind_eq_some.2 takes.is
  rcases takes.how with ⟨header, idle, rfl⟩ | ⟨cont, next, busy, same, rfl⟩
  · refine ⟨k.declared f.pkt, ?_, ?_⟩
    · unfold follow
      rw [if_neg (not_not.2 ok), hkind, CurStream.unfinished_of_idle idle]
      exact if_pos header
    · show r.core.curStream.curSize + f.paylen + k.declared f.pkt = k.declared f.pkt + f.paylen
      rw [sane.idle idle]
      omega
  · refine ⟨r.core.curStream.size - r.core.curStream.curSize, ?_, ?_⟩
    · unfold follow
      rw [if_neg (not_not.2 ok), hkind, CurStream.unfinished_of_busy busy same]
      exact if_pos ⟨cont, next, rfl⟩
    · show r.core.curStream.curSize + f.paylen + _ = r.core.curStream.size + f.paylen
      have := sane.busy busy
      omega

/-- A frame that the recorder does not take leaves nothing unfinished. -/
theorem follow_of_not_takes (ok : f.err = 0) (not : ∀ k cs, ¬ r.Takes k f cs) :
    follow f r.core.curStream.unfinished = (none, []) := by
  cases hkind : f.kind with
  | none => exact follow_of_plain ok hkind _
  | some k =>
    have is := kind_eq_some.1 hkind
    unfold follow
    rw [if_neg (not_not.2 ok), hkind]
    by_cases idle : r.core.curStream.size = 0
    · rw [CurStream.unfinished_of_idle idle]
      refine if_neg fun header => ?_
      exact not k _ ⟨is, Or.inl ⟨header, idle, rfl⟩⟩
    · have busy : 0 < r.core.curStream.size := Nat.pos_of_ne_zero idle
      obtain ⟨k', same⟩ : ∃ k' : Kind, r.core.curStream.isEvent = k'.isTrace := by
        cases r.core.curStream.isEvent
        · exact ⟨.hist, rfl⟩
        · exact ⟨.trace, rfl⟩
      rw [CurStream.unfinished_of_busy busy same]
      refine if_neg ?_
      rintro ⟨cont, next, rfl⟩
      exact not k' _ ⟨is, Or.inr ⟨cont, next, busy, same, rfl⟩⟩

end Follow

/-! ## One frame -/

/-- The counters after a frame that completes these streams. -/
def Stats.after (f : Frame) (done : List Kind) (st : Stats) : Stats :=
  { st with
    ticks := st.ticks + if f.validTick then 1 else 0
    events := st.events + done.count .trace + if f.validShort then f.pkt.eventNums else 0
    traces := st.traces + done.count .trace
    hists := st.hists + done.count .hist
    frames := st.frames + 1
    framesLost := st.framesLost + f.missed }

/-- The recorder counts in a frame what the specification does. -/
structure CountsFrame (f : Frame) (r r' : Recorder) : Prop where
  sane : r'.core.curStream.Sane
  unfinished : r'.core.curStream.unfinished = (follow f r.core.curStream.unfinished).1
  st : r'.core.st = r.core.st.after f (follow f r.core.curStream.unfinished).2
  idx : ∀ k : Kind, (r'.files k.idx).length =
    (r.files k.idx).length + SIDX_LEN * (follow f r.core.curStream.unfinished).2.count k

section Record

variable {k : Kind} {f : Frame} {r : Recorder} {cs : CurStream}

theorem not_validTick_of_is (is : k.Is f.pkt) : f.validTick = false ∧ f.validShort = false := by
  have tick : f.pkt.isTick = false := by
    cases k with
    | trace => exact Tespkt.isTick_of_isTraceLong is
    | hist => exact Tespkt.isTick_of_isMca is
  rw [Frame.validTick, Frame.validShort, tick, kind_eq_some.2 is]
  simp

/-- A valid frame of a stream counts only as a frame, but for the stream that it may complete. -/
theorem after_of_is (is : k.Is f.pkt) (done : List Kind) :
    r.core.st.after f done = { (r.core.count f).st with
      events := r.core.st.events + done.count .trace
      traces := r.core.st.traces + done.count .trace
      hists := r.core.st.hists + done.count .hist } := by
  rw [Stats.after, (not_validTick_of_is is).1, (not_validTick_of_is is).2]
  rfl

theorem length_record_sidx_of_none (h : (r.index f).2.2.1 = none) (k : Kind) :
    ((r.record f).files k.idx).length = (r.files k.idx).length := by
  rw [record_sidx_of_none h]

theorem record_of_err_counts (bad : f.err ≠ 0) (sane : r.core.curStream.Sane) :
    CountsFrame f r (r.record f) := by
  obtain ⟨hcs, hdue⟩ := record_of_err bad r
  refine ⟨by rwa [hcs], by rw [hcs, follow_of_err bad], ?_, fun k => ?_⟩
  · obtain ⟨c, fidx, -, hst, h⟩ := index_eq f r
    rw [Recorder.record_core, h, indexStream_of_err bad, follow_of_err bad, Stats.after,
      Frame.validTick, Frame.validShort, decide_eq_false bad]
    exact hst
  · rw [length_record_sidx_of_none hdue, follow_of_err bad]
    rfl

theorem record_of_takes_counts (ok : f.err = 0) (sane : r.core.curStream.Sane)
    (takes : r.Takes k f cs) : CountsFrame f r (r.record f) := by
  obtain ⟨left, hfollow, hleft⟩ := follow_of_takes sane ok takes
  rw [advance] at hfollow
  rcases Nat.lt_trichotomy cs.curSize cs.size with short | full | long
  · rw [if_pos (by omega)] at hfollow
    obtain ⟨hcs, hst, hdue⟩ := record_of_takes_lt ok takes short
    refine ⟨?_, ?_, ?_, fun k' => ?_⟩
    · rw [hcs]
      exact ⟨fun idle => by omega, fun _ => short⟩
    · rw [hcs, hfollow, CurStream.unfinished_of_busy (by omega) (takes_isEvent takes)]
      congr 2
      omega
    · rw [hst, hfollow, after_of_is takes.is]
      rfl
    · rw [length_record_sidx_of_none hdue, hfollow]
      rfl
  · rw [if_neg (by omega), if_pos (by omega)] at hfollow
    obtain ⟨hcs, hst, hdue⟩ := record_of_takes_eq ok takes full
    refine ⟨?_, ?_, ?_, fun k' => ?_⟩
    · rw [hcs]
      exact CurStream.sane_of_idle rfl rfl
    · rw [hcs, hfollow]
      rfl
    · rw [hst, hfollow, after_of_is takes.is]
      cases k <;> rfl
    · rw [record_sidx_of_some hdue, List.length_append, hfollow]
      cases k <;> cases k' <;> simp [Kind.idx]
  · rw [if_neg (by omega), if_neg (by omega)] at hfollow
    obtain ⟨hsize, hcur, hst, hdue⟩ := record_of_takes_gt ok takes long
    refine ⟨CurStream.sane_of_idle hsize hcur, ?_, ?_, fun k' => ?_⟩
    · rw [CurStream.unfinished_of_idle hsize, hfollow]
    · rw [hst, hfollow, after_of_is takes.is]
      rfl
    · rw [length_record_sidx_of_none hdue, hfollow]
      rfl

/-- A valid frame that belongs to no stream is a tick or has short events. -/
theorem record_of_plain (ok : f.err = 0) (plain : f.kind = none) :
    (r.record f).core.st = r.core.st.after f [] := by
  obtain ⟨hm, ht⟩ := kind_eq_none plain
  obtain ⟨c, fidx, hcs, hst, h⟩ := index_eq f r
  have hs : c.startsStream f = false := by simp [Core.startsStream, hm, ht]
  have hc : c.continuesStream f = false := by simp [Core.continuesStream, hm, ht]
  have ist := (interrupted_curStream hc).1.trans hst
  have hshort : f.validShort = !f.pkt.isTick := by simp [Frame.validShort, ok, plain]
  have htick : f.validTick = f.pkt.isTick := by simp [Frame.validTick, ok]
  rw [Recorder.record_core, h, Stats.after, hshort, htick]
  cases tick : f.pkt.isTick with
  | true =>
    rw [indexStream_of_tick _ _ ok hs hc hm ht tick, ist]
    rfl
  | false =>
    rw [indexStream_of_event _ _ ok hs hc hm ht tick, ist]
    rfl

theorem record_of_not_takes_counts (ok : f.err = 0) (sane : r.core.curStream.Sane)
    (not : ∀ k cs, ¬ r.Takes k f cs) : CountsFrame f r (r.record f) := by
  obtain ⟨hsize, hcur, hst, -, hdue⟩ := record_of_not_takes ok not
  have hfollow := follow_of_not_takes ok not
  refine ⟨CurStream.sane_of_idle hsize ?_, ?_, ?_, fun k => ?_⟩
  · rcases hcur with h0 | ⟨idle, same⟩
    · exact h0
    · rw [same, sane.idle idle]
  · rw [CurStream.unfinished_of_idle hsize, hfollow]
  · rw [hfollow]
    cases hkind : f.kind with
    | none => exact record_of_plain ok hkind
    | some k =>
      rw [hst ⟨k, kind_eq_some.1 hkind⟩, after_of_is (kind_eq_some.1 hkind)]
      rfl
  · rw [length_record_sidx_of_none hdue, hfollow]
    rfl

theorem record_counts (f : Frame) (sane : r.core.curStream.Sane) :
    CountsFrame f r (r.record f) := by
  by_cases ok : f.err = 0
  · by_cases taken : ∃ k cs, r.Takes k f cs
    · obtain ⟨k, cs, takes⟩ := taken
      exact record_of_takes_counts ok sane takes
    · exact record_of_not_takes_counts ok sane fun k cs takes => taken ⟨k, cs, takes⟩
  · exact record_of_err_counts ok sane

end Record

/-! ## Runs -/

theorem shortEvents_cons (f : Frame) (fs : List Frame) : shortEvents (f :: fs) =
    (if f.validShort then f.pkt.eventNums else 0) + shortEvents fs := by
  unfold shortEvents
  rw [List.filter_cons]
  cases f.validShort <;> simp

/-- The recorder's counters are the specification's, and a stream index has a record for each stream
that is completed. -/
theorem run_counts (fs : List Frame) {r : Recorder} (sane : r.core.curStream.Sane) :
    (r.run fs).core.st =
      { r.core.st with
        ticks := r.core.st.ticks + fs.countP Frame.validTick
        events := r.core.st.events + (finished fs r.core.curStream.unfinished).count .trace +
          shortEvents fs
        traces := r.core.st.traces + (finished fs r.core.curStream.unfinished).count .trace
        hists := r.core.st.hists + (finished fs r.core.curStream.unfinished).count .hist
        frames := r.core.st.frames + fs.length
        framesLost := r.core.st.framesLost + (fs.map Frame.missed).sum } ∧
    ∀ k : Kind, ((r.run fs).files k.idx).length = (r.files k.idx).length +
      SIDX_LEN * (finished fs r.core.curStream.unfinished).count k := by
  induction fs generalizing r with
  | nil => exact ⟨rfl, fun k => rfl⟩
  | cons f fs ih =>
    have step := record_counts f sane
    obtain ⟨hst, hidx⟩ := ih step.sane
    rw [run_cons, finished]
    refine ⟨?_, fun k => ?_⟩
    · rw [hst, step.st, step.unfinished]
      simp only [Stats.after, List.countP_cons, List.count_append, shortEvents_cons,
        List.length_cons, List.map_cons, List.sum_cons, Stats.mk.injEq, and_true]
      omega
    · rw [hidx, step.idx, step.unfinished, List.count_append, Nat.mul_add, Nat.add_assoc]

theorem init_counts (s : Setup) (fs : List Frame) :
    ((Recorder.init s).run fs).core.st = counters fs ∧
      ∀ k : Kind, (((Recorder.init s).run fs).files k.idx).length =
        SIDX_LEN * (finished fs none).count k := by
  have sane : (Recorder.init s).core.curStream.Sane := CurStream.sane_of_idle rfl rfl
  obtain ⟨hst, hidx⟩ := run_counts fs sane
  refine ⟨?_, fun k => ?_⟩
  · rw [hst, counters]
    simp [Recorder.init, openJob, CurStream.unfinished]
  · rw [hidx]
    simp [Recorder.init, openJob, CurStream.unfinished]

end Tesd
