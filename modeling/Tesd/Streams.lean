import Tesd.Lib.Blocks
import Tesd.RecorderRun

/-!
# Traces and histograms that span several frames

A stream is a header frame and the frames that continue it.  `recordStream_cases` says all that a
valid frame can do to the stream that the recorder is following.
-/

namespace Tesd

/-- The two kinds of streams, with a stream index each. -/
inductive Kind
  | trace | hist
  deriving DecidableEq, Repr

namespace Kind

def isTrace : Kind → Bool
  | trace => true
  | hist => false

/-- The index of these streams. -/
def idx : Kind → Dset
  | trace => .ridx
  | hist => .midx

/-- The data file that their frames go to. -/
def dat : Kind → Dset
  | trace => .edat
  | hist => .mdat

def Is (k : Kind) (pkt : Tespkt) : Prop :=
  match k with
  | trace => pkt.isTraceLong = true
  | hist => pkt.isMca = true

/-- The size that the header of a stream declares. -/
def declared (k : Kind) (pkt : Tespkt) : ℕ :=
  match k with
  | trace => pkt.traceSize
  | hist => pkt.mcaSize

/-- The counters after one more stream. -/
def counted (k : Kind) (st : Stats) : Stats :=
  match k with
  | trace => { st with events := st.events + 1, traces := st.traces + 1 }
  | hist => { st with hists := st.hists + 1 }

/-- What a valid frame leaves in the data file of these streams. -/
def bytes (k : Kind) (f : Frame) : List UInt8 := if f.dset = k.dat then f.payload else []

section Is

variable {k : Kind} {f : Frame}

theorem isTraceLong_eq (h : k.Is f.pkt) : f.pkt.isTraceLong = k.isTrace := by
  cases k with
  | trace => exact h
  | hist => exact Tespkt.isTraceLong_of_isMca h

theorem isMca_eq (h : k.Is f.pkt) : f.pkt.isMca = !k.isTrace := by
  cases k with
  | trace => exact Tespkt.isMca_of_isTraceLong h
  | hist => exact h

theorem dset_eq (h : k.Is f.pkt) (ok : f.err = 0) : f.dset = k.dat := by
  unfold Frame.dset
  rw [if_neg (not_not.2 ok), isMca_eq h]
  cases k with
  | trace => simp [isTrace, dat, Tespkt.isTick_of_isTraceLong h]
  | hist => rfl

theorem bytes_eq (h : k.Is f.pkt) (ok : f.err = 0) : k.bytes f = f.payload :=
  if_pos (dset_eq h ok)

theorem eq_of_isTrace {k' : Kind} (h : k.isTrace = k'.isTrace) : k = k' := by
  cases k <;> cases k' <;> first | rfl | cases h

end Is

end Kind

/-- A valid header frame and valid frames that continue its stream, with none lost in between. -/
def IsStream (k : Kind) : List Frame → Prop
  | [] => False
  | h :: conts => (h.err = 0 ∧ k.Is h.pkt ∧ h.pkt.isHeader = true) ∧
      ∀ f ∈ conts, f.err = 0 ∧ k.Is f.pkt ∧ f.pkt.isHeader = false ∧ f.missed = 0

/-- The size that a stream's header declares. -/
def declaredSize (k : Kind) : List Frame → ℕ
  | [] => 0
  | h :: _ => k.declared h.pkt

/-- The payloads sum to what the header declares. -/
def CompleteStream (k : Kind) (fs : List Frame) : Prop :=
  IsStream k fs ∧ (fs.map Frame.paylen).sum = declaredSize k fs

section IsStream

variable {k : Kind} {fs : List Frame}

theorem isStream_concat (h : IsStream k fs) {f : Frame} (ok : f.err = 0) (is : k.Is f.pkt)
    (cont : f.pkt.isHeader = false) (next : f.missed = 0) : IsStream k (fs ++ [f]) := by
  cases fs with
  | nil => exact h.elim
  | cons g conts =>
    refine ⟨h.1, fun e he => ?_⟩
    rcases List.mem_append.1 he with he | he
    · exact h.2 e he
    · rw [List.mem_singleton.1 he]
      exact ⟨ok, is, cont, next⟩

theorem declaredSize_concat (h : IsStream k fs) (f : Frame) :
    declaredSize k (fs ++ [f]) = declaredSize k fs := by
  cases fs with
  | nil => exact h.elim
  | cons g conts => rfl

theorem ok_of_isStream (h : IsStream k fs) : ∀ f ∈ fs, f.err = 0 ∧ k.Is f.pkt := by
  cases fs with
  | nil => exact h.elim
  | cons g conts =>
    intro f hf
    rcases List.mem_cons.1 hf with rfl | hf
    · exact ⟨h.1.1, h.1.2.1⟩
    · exact ⟨(h.2 f hf).1, (h.2 f hf).2.1⟩

theorem flatMap_bytes_of_isStream (h : IsStream k fs) : fs.flatMap k.bytes = fs.flatMap Frame.payload :=
  List.flatMap_congr fun f hf => Kind.bytes_eq (ok_of_isStream h f hf).2 (ok_of_isStream h f hf).1

theorem length_flatMap_payload (fs : List Frame) :
    (fs.flatMap Frame.payload).length = (fs.map Frame.paylen).sum := by
  induction fs with
  | nil => rfl
  | cons f fs ih =>
    rw [List.flatMap_cons, List.length_append, ih, length_payload, List.map_cons, List.sum_cons]

theorem size_of_isStream (h : IsStream k fs) :
    Blocks.size k.bytes fs = (fs.map Frame.paylen).sum := by
  rw [Blocks.size, flatMap_bytes_of_isStream h, length_flatMap_payload]

end IsStream

/-! ## What a frame does to the stream -/

/-- The stream index finds the stream and the counters as the frame before left them. -/
theorem index_eq (f : Frame) (r : Recorder) :
    ∃ (c : Core) (fidx : Fidx), c.curStream = r.core.curStream ∧ c.st = (r.core.count f).st ∧
      r.index f = c.indexStream f (r.files f.dset).length fidx := by
  obtain ⟨ct, pe, pt, h⟩ := indexFrame_frame f (r.core.count f)
  exact ⟨((r.core.count f).indexFrame f).1, _, by rw [h]; rfl, by rw [h], rfl⟩

theorem record_of_err {f : Frame} (bad : f.err ≠ 0) (r : Recorder) :
    (r.record f).core.curStream = r.core.curStream ∧ (r.index f).2.2.1 = none := by
  obtain ⟨c, fidx, hcs, -, h⟩ := index_eq f r
  rw [Recorder.record_core, h, indexStream_of_err bad]
  exact ⟨hcs, rfl⟩

section CheckStream

variable {c : Core}

theorem checkStream_of_lt (h : c.curStream.curSize < c.curStream.size) (isTrace : Bool) :
    c.checkStream isTrace = (c, none) := by
  rw [Core.checkStream, if_neg (by omega), if_neg (by omega)]

theorem checkStream_of_eq (h : c.curStream.curSize = c.curStream.size) (k : Kind) :
    c.checkStream k.isTrace =
      ({ c with
        st := k.counted c.st
        curStream := { c.curStream with length := c.curStream.size, size := 0, curSize := 0 } },
      some (k.idx, sidxBytes c.curStream.start c.curStream.size)) := by
  rw [Core.checkStream, if_neg (by omega), if_pos h]
  cases k <;> rfl

theorem checkStream_of_gt (h : c.curStream.size < c.curStream.curSize) (isTrace : Bool) :
    c.checkStream isTrace = (c.discardStream, none) := by
  rw [Core.checkStream, if_pos (by omega)]

end CheckStream

namespace Recorder

/-- The stream that a header frame opens. -/
def opened (k : Kind) (f : Frame) (r : Recorder) : CurStream :=
  { r.core.curStream with
    size := k.declared f.pkt
    isEvent := k.isTrace
    discard := false
    start := (r.files k.dat).length
    curSize := r.core.curStream.curSize + f.paylen }

/-- The stream with one more frame. -/
def extended (f : Frame) (r : Recorder) : CurStream :=
  { r.core.curStream with curSize := r.core.curStream.curSize + f.paylen }

/-- The frame is taken for one of a stream, which is `cs` with it. -/
structure Takes (k : Kind) (f : Frame) (r : Recorder) (cs : CurStream) : Prop where
  is : k.Is f.pkt
  how : (f.pkt.isHeader = true ∧ r.core.curStream.size = 0 ∧ cs = r.opened k f) ∨
    (f.pkt.isHeader = false ∧ f.missed = 0 ∧ 0 < r.core.curStream.size ∧
      r.core.curStream.isEvent = k.isTrace ∧ cs = r.extended f)

end Recorder

section Takes

variable {k : Kind} {f : Frame} {r : Recorder} {cs : CurStream}

theorem startsStream_of_header (is : k.Is f.pkt) (header : f.pkt.isHeader = true) {c : Core}
    (idle : c.curStream.size = 0) : c.startsStream f = true := by
  rw [Core.startsStream, Kind.isTraceLong_eq is, Kind.isMca_eq is, header, idle]
  simp

theorem continuesStream_of_cont (is : k.Is f.pkt) (cont : f.pkt.isHeader = false)
    (next : f.missed = 0) {c : Core} (busy : 0 < c.curStream.size)
    (same : c.curStream.isEvent = k.isTrace) : c.continuesStream f = true := by
  rw [Core.continuesStream, Kind.isTraceLong_eq is, Kind.isMca_eq is, cont, next, same]
  cases k.isTrace <;> simp [busy]

theorem index_of_takes (ok : f.err = 0) (takes : r.Takes k f cs) :
    ∃ c : Core, c.curStream = cs ∧ c.st = (r.core.count f).st ∧
      (r.index f).1 = (c.checkStream k.isTrace).1 ∧
      (r.index f).2.2 = ((c.checkStream k.isTrace).2, false) := by
  obtain ⟨c, fidx, hcs, hst, h⟩ := index_eq f r
  rw [h, Kind.dset_eq takes.is ok]
  rcases takes.how with ⟨header, idle, rfl⟩ | ⟨cont, next, busy, same, rfl⟩
  · rw [indexStream_of_starts _ _ ok (startsStream_of_header takes.is header (hcs ▸ idle)),
      Core.extendStream, Kind.isTraceLong_eq takes.is]
    refine ⟨_, ?_, ?_, rfl, rfl⟩
    · unfold Core.startStream Recorder.opened
      rw [Kind.isTraceLong_eq takes.is, hcs]
      cases k <;> rfl
    · exact hst
  · rw [indexStream_of_continues _ _ ok
        (continuesStream_of_cont takes.is cont next (hcs ▸ busy) (hcs ▸ same)),
      Core.extendStream, Kind.isTraceLong_eq takes.is]
    refine ⟨_, ?_, ?_, rfl, rfl⟩
    · rw [Recorder.extended, ← hcs]
    · exact hst

theorem record_of_takes_lt (ok : f.err = 0) (takes : r.Takes k f cs) (short : cs.curSize < cs.size) :
    (r.record f).core.curStream = cs ∧ (r.record f).core.st = (r.core.count f).st ∧
      (r.index f).2.2.1 = none := by
  obtain ⟨c, rfl, hst, hcore, hdue⟩ := index_of_takes ok takes
  rw [checkStream_of_lt short] at hcore hdue
  rw [Recorder.record_core, hcore, hdue]
  exact ⟨rfl, hst, rfl⟩

theorem record_of_takes_eq (ok : f.err = 0) (takes : r.Takes k f cs) (full : cs.curSize = cs.size) :
    (r.record f).core.curStream = { cs with length := cs.size, size := 0, curSize := 0 } ∧
      (r.record f).core.st = k.counted (r.core.count f).st ∧
      (r.index f).2.2.1 = some (k.idx, sidxBytes cs.start cs.size) := by
  obtain ⟨c, rfl, hst, hcore, hdue⟩ := index_of_takes ok takes
  rw [checkStream_of_eq full] at hcore hdue
  rw [Recorder.record_core, hcore, hdue, ← hst]
  exact ⟨rfl, rfl, rfl⟩

theorem record_of_takes_gt (ok : f.err = 0) (takes : r.Takes k f cs) (long : cs.size < cs.curSize) :
    (r.record f).core.curStream.size = 0 ∧ (r.record f).core.curStream.curSize = 0 ∧
      (r.record f).core.st = (r.core.count f).st ∧ (r.index f).2.2.1 = none := by
  obtain ⟨c, rfl, hst, hcore, hdue⟩ := index_of_takes ok takes
  rw [checkStream_of_gt long] at hcore hdue
  rw [Recorder.record_core, hcore, hdue]
  exact ⟨rfl, rfl, hst, rfl⟩

theorem takes_of_startsStream {c : Core} (h : c.startsStream f = true)
    (same : c.curStream = r.core.curStream) : ∃ k cs, r.Takes k f cs := by
  rw [Core.startsStream, same] at h
  simp only [Bool.and_eq_true, Bool.or_eq_true, decide_eq_true_iff] at h
  obtain ⟨⟨kind, header⟩, idle⟩ := h
  rcases kind with trace | hist
  · exact ⟨.trace, _, trace, Or.inl ⟨header, idle, rfl⟩⟩
  · exact ⟨.hist, _, hist, Or.inl ⟨header, idle, rfl⟩⟩

theorem takes_of_continuesStream {c : Core} (h : c.continuesStream f = true)
    (same : c.curStream = r.core.curStream) : ∃ k cs, r.Takes k f cs := by
  rw [Core.continuesStream, same] at h
  simp only [Bool.and_eq_true, Bool.or_eq_true, Bool.not_eq_true', decide_eq_true_iff] at h
  obtain ⟨⟨⟨kind, busy⟩, cont⟩, next⟩ := h
  rcases kind with ⟨trace, event⟩ | ⟨hist, event⟩
  · exact ⟨.trace, _, trace, Or.inr ⟨cont, next, busy, event, rfl⟩⟩
  · exact ⟨.hist, _, hist, Or.inr ⟨cont, next, busy, event, rfl⟩⟩

/-- What is left of the stream when a frame does not continue it. -/
theorem interrupted_curStream {c : Core} (h : c.continuesStream f = false) :
    (c.interrupted f).st = c.st ∧ (c.interrupted f).curStream.size = 0 ∧
      ((c.interrupted f).curStream.curSize = 0 ∨ c.curStream.size = 0 ∧
        (c.interrupted f).curStream.curSize = c.curStream.curSize) := by
  unfold Core.interrupted Core.interruptsStream
  rw [h]
  by_cases busy : c.curStream.size > 0
  · simp [busy, Core.discardStream]
  · simp only [busy, decide_false, Bool.and_false, Bool.false_eq_true, if_false]
    have idle : c.curStream.size = 0 := by omega
    exact ⟨trivial, idle, Or.inr ⟨idle, trivial⟩⟩

/-- A frame that is not taken ends whatever stream there is. -/
theorem record_of_not_takes (ok : f.err = 0) (not : ∀ k cs, ¬ r.Takes k f cs) :
    (r.record f).core.curStream.size = 0 ∧
      ((r.record f).core.curStream.curSize = 0 ∨ r.core.curStream.size = 0 ∧
        (r.record f).core.curStream.curSize = r.core.curStream.curSize) ∧
      ((∃ k : Kind, k.Is f.pkt) → (r.record f).core.st = (r.core.count f).st) ∧
      (r.record f).core.st.ticks = r.core.st.ticks + (if f.pkt.isTick then 1 else 0) ∧
      (r.index f).2.2.1 = none := by
  obtain ⟨c, fidx, hcs, hst, h⟩ := index_eq f r
  rw [Recorder.record_core, h]
  have hs : c.startsStream f = false := by
    rw [← Bool.not_eq_true]
    intro hs
    obtain ⟨k, cs, takes⟩ := takes_of_startsStream hs hcs
    exact not k cs takes
  have hc : c.continuesStream f = false := by
    rw [← Bool.not_eq_true]
    intro hc
    obtain ⟨k, cs, takes⟩ := takes_of_continuesStream hc hcs
    exact not k cs takes
  obtain ⟨ist, isize, icur⟩ := interrupted_curStream hc
  rw [hcs] at icur
  have hticks : (c.interrupted f).st.ticks = r.core.st.ticks := by
    rw [ist, hst]
    rfl
  by_cases kind : f.pkt.isMca = true ∨ f.pkt.isTraceLong = true
  · rw [indexStream_of_orphan _ _ ok hs hc kind]
    have tick : f.pkt.isTick = false := by
      rcases kind with hist | trace
      · exact Tespkt.isTick_of_isMca hist
      · exact Tespkt.isTick_of_isTraceLong trace
    rw [tick]
    exact ⟨isize, icur, fun _ => ist.trans hst, hticks, rfl⟩
  · rw [not_or, Bool.not_eq_true, Bool.not_eq_true] at kind
    have other : ¬ ∃ k : Kind, k.Is f.pkt := by
      rintro ⟨k, hk⟩
      cases k with
      | trace => exact Bool.noConfusion (kind.2.symm.trans hk)
      | hist => exact Bool.noConfusion (kind.1.symm.trans hk)
    cases tick : f.pkt.isTick with
    | false =>
      rw [indexStream_of_event _ _ ok hs hc kind.1 kind.2 tick]
      exact ⟨isize, icur, fun hk => absurd hk other, hticks, rfl⟩
    | true =>
      rw [indexStream_of_tick _ _ ok hs hc kind.1 kind.2 tick]
      exact ⟨isize, icur, fun hk => absurd hk other,
        congrArg (· + 1) hticks, rfl⟩

end Takes

end Tesd
