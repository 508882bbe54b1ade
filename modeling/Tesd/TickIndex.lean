import Tesd.FrameIndex
import Tesd.Streams

/-!
# The tick index

The `.tidx` file has a record for each tick but the first.  `cur_tick` is filled in while the frames
between two ticks arrive: `start_frame` with the first event frame, `stop_frame` with every later
one.  So the record of an interval with a single event frame has the `stop_frame` of an earlier one.
-/

namespace Tesd

open LittleEndian Records

namespace Frame

def validTick (f : Frame) : Bool := decide (f.err = 0) && f.pkt.isTick

/-- A valid event frame that is not a tick. -/
def validEvent (f : Frame) : Bool := decide (f.err = 0) && f.pkt.isEvent && !f.pkt.isTick

end Frame

section IndexFrame

variable {f : Frame} (c : Core)

theorem indexFrame_of_tick (h : f.validTick = true) :
    (c.indexFrame f).1.curTick = { c.curTick with nframes := 0 } ∧
      (c.indexFrame f).2.2 = if c.st.ticks > 0 then some c.curTick.bytes else none := by
  rw [Frame.validTick, Bool.and_eq_true, decide_eq_true_iff] at h
  obtain ⟨ok, tick⟩ := h
  have hist : f.pkt.isMca = false := by
    rw [← Bool.not_eq_true]
    intro hist
    rw [Tespkt.isTick_of_isMca hist] at tick
    cases tick
  unfold Core.indexFrame
  rw [if_neg (not_not.2 ok), hist, tick]
  exact ⟨rfl, rfl⟩

theorem indexFrame_of_event (h : f.validEvent = true) :
    (c.indexFrame f).1.curTick =
        (if c.curTick.nframes = 0 then
          { c.curTick with startFrame := (c.st.frames - 1) % 2 ^ 32, nframes := 1 }
        else
          { c.curTick with
            stopFrame := (c.st.frames - 1) % 2 ^ 32
            nframes := (c.curTick.nframes + 1) % 2 ^ 32 }) ∧
      (c.indexFrame f).2.2 = none := by
  simp only [Frame.validEvent, Bool.and_eq_true, decide_eq_true_iff, Bool.not_eq_true'] at h
  obtain ⟨⟨ok, event⟩, tick⟩ := h
  have hist : f.pkt.isMca = false := by
    rw [← Bool.not_eq_true]
    intro hist
    rw [Tespkt.isEvent_of_isMca hist] at event
    cases event
  unfold Core.indexFrame
  rw [if_neg (not_not.2 ok), hist, tick]
  refine ⟨?_, rfl⟩
  by_cases first : c.curTick.nframes = 0
  · simp [first]
  · simp [first]

theorem indexFrame_of_other (ht : f.validTick = false) (he : f.validEvent = false) :
    (c.indexFrame f).1.curTick = c.curTick ∧ (c.indexFrame f).2.2 = none := by
  unfold Core.indexFrame
  by_cases ok : f.err = 0
  · have hist : f.pkt.isMca = true := by
      simp only [Frame.validTick, Frame.validEvent, ok, decide_true, Bool.true_and] at ht he
      rw [ht, Bool.not_false, Bool.and_true] at he
      rcases Tespkt.isEvent_or_isMca_of_valid (f.valid ok).1 with event | hist
      · rw [he] at event
        cases event
      · exact hist
    rw [if_neg (not_not.2 ok), hist]
    exact ⟨rfl, rfl⟩
  · rw [if_pos ok]
    exact ⟨rfl, rfl⟩

end IndexFrame

/-! ## One frame -/

section Record

variable (f : Frame) (r : Recorder)

/-- The tick record that the frame completes. -/
def tidxDue : List CurTick :=
  if f.validTick = true ∧ r.core.st.ticks > 0 then [r.core.curTick] else []

theorem record_tidx :
    (r.record f).files .tidx = r.files .tidx ++ (tidxDue f r).flatMap CurTick.bytes := by
  rw [record_files_tidx, tidxDue]
  congr 1
  cases ht : f.validTick with
  | true =>
    rw [(indexFrame_of_tick _ ht).2]
    show Option.getD (if r.core.st.ticks > 0 then some r.core.curTick.bytes else none) [] = _
    by_cases hpos : r.core.st.ticks > 0 <;> simp [hpos]
  | false =>
    have hnone : ((r.core.count f).indexFrame f).2.2 = none := by
      cases he : f.validEvent with
      | true => exact (indexFrame_of_event _ he).2
      | false => exact (indexFrame_of_other _ ht he).2
    rw [hnone]
    rfl

theorem record_ticks :
    (r.record f).core.st.ticks = r.core.st.ticks + if f.validTick then 1 else 0 := by
  by_cases ok : f.err = 0
  · have ht : f.validTick = f.pkt.isTick := by simp [Frame.validTick, ok]
    rw [ht]
    by_cases taken : ∃ k cs, r.Takes k f cs
    · obtain ⟨k, cs, takes⟩ := taken
      have tick : f.pkt.isTick = false := by
        have is := takes.is
        cases k with
        | trace => exact Tespkt.isTick_of_isTraceLong is
        | hist => exact Tespkt.isTick_of_isMca is
      rw [tick]
      rcases Nat.lt_trichotomy cs.curSize cs.size with short | full | long
      · rw [(record_of_takes_lt ok takes short).2.1]
        rfl
      · rw [(record_of_takes_eq ok takes full).2.1]
        cases k <;> rfl
      · rw [(record_of_takes_gt ok takes long).2.2.1]
        rfl
    · exact (record_of_not_takes ok fun k cs takes => taken ⟨k, cs, takes⟩).2.2.2.1
  · have ht : f.validTick = false := by simp [Frame.validTick, ok]
    obtain ⟨c, fidx, -, hst, h⟩ := index_eq f r
    rw [Recorder.record_core, h, indexStream_of_err ok, ht]
    show c.st.ticks = r.core.st.ticks
    rw [hst]
    rfl

variable {f}

theorem curTick_of_tick (h : f.validTick = true) :
    (r.record f).core.curTick = { r.core.curTick with nframes := 0 } := by
  rw [(record_frame f r).2.2.2.2.2, (indexFrame_of_tick _ h).1]
  rfl

theorem curTick_of_event (h : f.validEvent = true) :
    (r.record f).core.curTick =
      if r.core.curTick.nframes = 0 then
        { r.core.curTick with startFrame := r.core.st.frames % 2 ^ 32, nframes := 1 }
      else
        { r.core.curTick with
          stopFrame := r.core.st.frames % 2 ^ 32
          nframes := (r.core.curTick.nframes + 1) % 2 ^ 32 } := by
  rw [(record_frame f r).2.2.2.2.2, (indexFrame_of_event _ h).1]
  rfl

theorem curTick_of_other (ht : f.validTick = false) (he : f.validEvent = false) :
    (r.record f).core.curTick = r.core.curTick := by
  rw [(record_frame f r).2.2.2.2.2, (indexFrame_of_other _ ht he).1]
  rfl

end Record

/-! ## Runs -/

/-- The records that a run adds to the tick index. -/
def tidxOf : List Frame → Recorder → List CurTick
  | [], _ => []
  | f :: fs, r => tidxDue f r ++ tidxOf fs (r.record f)

section Run

variable (fs : List Frame) (r : Recorder)

theorem run_files_tidx :
    (r.run fs).files .tidx = r.files .tidx ++ (tidxOf fs r).flatMap CurTick.bytes := by
  induction fs generalizing r with
  | nil => simp [run_nil, tidxOf]
  | cons f fs ih =>
    rw [run_cons, ih, record_tidx, tidxOf, List.flatMap_append, List.append_assoc]

theorem tidxOf_append (gs : List Frame) :
    tidxOf (fs ++ gs) r = tidxOf fs r ++ tidxOf gs (r.run fs) := by
  induction fs generalizing r with
  | nil => rfl
  | cons f fs ih => rw [List.cons_append, tidxOf, ih, tidxOf, List.append_assoc, run_cons]

theorem run_ticks : (r.run fs).core.st.ticks = r.core.st.ticks + fs.countP Frame.validTick := by
  induction fs generalizing r with
  | nil => rfl
  | cons f fs ih =>
    rw [run_cons, ih, record_ticks, List.countP_cons]
    omega

/-- Every tick but the first completes a record. -/
theorem length_tidxOf :
    (tidxOf fs r).length + (r.core.st.ticks - 1) =
      r.core.st.ticks + fs.countP Frame.validTick - 1 := by
  induction fs generalizing r with
  | nil => simp [tidxOf]
  | cons f fs ih =>
    have hih := ih (r.record f)
    rw [record_ticks] at hih
    rw [tidxOf, List.length_append, List.countP_cons, tidxDue]
    cases ht : f.validTick with
    | false =>
      simp only [ht, Bool.false_eq_true, if_false, false_and, List.length_nil] at hih ⊢
      omega
    | true =>
      simp only [ht, if_true, true_and] at hih ⊢
      by_cases hpos : r.core.st.ticks > 0
      · simp only [hpos, if_true, List.length_singleton]
        omega
      · simp only [hpos, if_false, List.length_nil]
        omega

variable {fs}

theorem run_curTick_of_quiet (quiet : ∀ f ∈ fs, f.validTick = false ∧ f.validEvent = false) :
    (r.run fs).core.curTick = r.core.curTick := by
  induction fs generalizing r with
  | nil => rfl
  | cons f fs ih =>
    obtain ⟨ht, he⟩ := quiet f (by simp)
    rw [run_cons, ih _ fun g hg => quiet g (List.mem_cons_of_mem _ hg), curTick_of_other r ht he]

/-- Once an event frame has come, later ones leave `start_frame` alone until the next tick. -/
theorem run_curTick_of_started (noTick : ∀ f ∈ fs, f.validTick = false)
    (started : 0 < r.core.curTick.nframes) (small : r.core.curTick.nframes + fs.length < 2 ^ 32) :
    (r.run fs).core.curTick.startFrame = r.core.curTick.startFrame ∧
      0 < (r.run fs).core.curTick.nframes := by
  induction fs generalizing r with
  | nil => exact ⟨rfl, started⟩
  | cons f fs ih =>
    rw [List.length_cons] at small
    have hstep : (r.record f).core.curTick.startFrame = r.core.curTick.startFrame ∧
        0 < (r.record f).core.curTick.nframes ∧
        (r.record f).core.curTick.nframes ≤ r.core.curTick.nframes + 1 := by
      cases he : f.validEvent with
      | true =>
        rw [curTick_of_event r he, if_neg (by omega)]
        dsimp only
        rw [Nat.mod_eq_of_lt (by omega)]
        exact ⟨rfl, by omega, Nat.le_refl _⟩
      | false =>
        rw [curTick_of_other r (noTick f (by simp)) he]
        exact ⟨rfl, started, by omega⟩
    obtain ⟨hstart, hpos, hle⟩ := hstep
    rw [run_cons, ← hstart]
    exact ih _ (fun g hg => noTick g (List.mem_cons_of_mem _ hg)) hpos (by omega)

theorem record_stopFrame_le (f : Frame)
    (h : r.core.curTick.stopFrame ≤ r.core.st.frames - 1) :
    (r.record f).core.curTick.stopFrame ≤ (r.record f).core.st.frames - 1 := by
  rw [(record_frame f r).2.2.2.2.1, Nat.add_sub_cancel]
  have hmod := Nat.mod_le r.core.st.frames (2 ^ 32)
  cases he : f.validEvent with
  | true =>
    rw [curTick_of_event r he]
    split_ifs
    · dsimp only
      omega
    · exact hmod
  | false =>
    cases ht : f.validTick with
    | true =>
      rw [curTick_of_tick r ht]
      dsimp only
      omega
    | false =>
      rw [curTick_of_other r ht he]
      omega

/-- A `stop_frame` is the number of an earlier frame. -/
theorem run_stopFrame_le (fs : List Frame) (h : r.core.curTick.stopFrame ≤ r.core.st.frames - 1) :
    (r.run fs).core.curTick.stopFrame ≤ (r.run fs).core.st.frames - 1 := by
  induction fs generalizing r with
  | nil => exact h
  | cons f fs ih => exact ih _ (record_stopFrame_le r f h)

end Run

/-- The records up to that of the interval between two consecutive ticks. -/
theorem tidxOf_split (r : Recorder) {pre mid : List Frame} {tick tick' : Frame}
    (post : List Frame) (zero : r.core.st.ticks = 0) (htick : tick.validTick = true)
    (htick' : tick'.validTick = true) (noTick : ∀ f ∈ mid, f.validTick = false) :
    ∃ before after, tidxOf (pre ++ tick :: (mid ++ tick' :: post)) r =
        before ++ (((r.run pre).record tick).run mid).core.curTick :: after ∧
      before.length = pre.countP Frame.validTick := by
  have hmid : mid.countP Frame.validTick = 0 := List.countP_eq_zero.2 fun f hf => by
    simp [noTick f hf]
  have hpos : (((r.run pre).record tick).run mid).core.st.ticks > 0 := by
    rw [run_ticks, record_ticks, htick, if_pos rfl]
    omega
  have hlen := length_tidxOf (pre ++ tick :: mid) r
  rw [zero, List.countP_append, List.countP_cons, hmid, htick, if_pos rfl] at hlen
  refine ⟨tidxOf (pre ++ tick :: mid) r,
    tidxOf post ((((r.run pre).record tick).run mid).record tick'), ?_, by omega⟩
  rw [← List.cons_append, ← List.append_assoc, tidxOf_append (pre ++ tick :: mid), tidxOf, tidxDue,
    run_append, run_cons, if_pos ⟨htick', hpos⟩]
  rfl

/-! ## The frames between two ticks -/

section Interval

variable {r : Recorder} {mid a b c d : List Frame} {e e' : Frame}

/-- With a single event frame, the record has its number and an old `stop_frame`. -/
theorem run_curTick_of_one (idle : r.core.curTick.nframes = 0)
    (noTick : ∀ f ∈ a ++ e :: d, f.validTick = false) (event : e.validEvent = true)
    (ha : ∀ f ∈ a, f.validEvent = false) (hd : ∀ f ∈ d, f.validEvent = false) :
    (r.run (a ++ e :: d)).core.curTick.stopFrame = r.core.curTick.stopFrame := by
  have quietA := run_curTick_of_quiet r fun f hf => ⟨noTick f (by simp [hf]), ha f hf⟩
  rw [run_append, run_cons,
    run_curTick_of_quiet _ fun f hf => ⟨noTick f (by simp [hf]), hd f hf⟩,
    curTick_of_event _ event, if_pos (by rw [quietA, idle])]
  dsimp only
  rw [quietA]

/-- With two event frames or more, the record has the numbers of the first and the last. -/
theorem run_curTick_of_more (idle : r.core.curTick.nframes = 0)
    (noTick : ∀ f ∈ a ++ e :: (b ++ e' :: d), f.validTick = false) (event : e.validEvent = true)
    (event' : e'.validEvent = true) (ha : ∀ f ∈ a, f.validEvent = false)
    (hd : ∀ f ∈ d, f.validEvent = false) (small : b.length + 1 < 2 ^ 32) :
    (r.run (a ++ e :: (b ++ e' :: d))).core.curTick.startFrame =
        (r.core.st.frames + a.length) % 2 ^ 32 ∧
      (r.run (a ++ e :: (b ++ e' :: d))).core.curTick.stopFrame =
        (r.core.st.frames + a.length + 1 + b.length) % 2 ^ 32 := by
  have quietA := run_curTick_of_quiet r fun f hf => ⟨noTick f (by simp [hf]), ha f hf⟩
  have hframes := (run_frame a r).2.2.2.2
  have first := curTick_of_event (r.run a) event
  rw [quietA, idle, if_pos rfl] at first
  have hcount : ((r.run a).record e).core.st.frames = r.core.st.frames + a.length + 1 := by
    rw [(record_frame e _).2.2.2.2.1, hframes]
  have quietB : ∀ f ∈ b, f.validTick = false := fun f hf => noTick f (by simp [hf])
  obtain ⟨hstart, hpos⟩ := run_curTick_of_started ((r.run a).record e) quietB
    (by rw [first]; exact Nat.one_pos) (by rw [first]; dsimp only; omega)
  have hlast := (run_frame b ((r.run a).record e)).2.2.2.2
  rw [run_append, run_cons, run_append, run_cons,
    run_curTick_of_quiet _ fun f hf => ⟨noTick f (by simp [hf]), hd f hf⟩,
    curTick_of_event _ event', if_neg (by omega)]
  dsimp only
  rw [hstart, first, hlast, hcount, hframes]
  exact ⟨rfl, rfl⟩

theorem first_le_last (h : a ++ e :: b = c ++ e' :: d) (ha : ∀ f ∈ a, f.validEvent = false)
    (event' : e'.validEvent = true) :
    (a = c ∧ e = e' ∧ b = d) ∨ ∃ x, c = a ++ e :: x ∧ b = x ++ e' :: d := by
  rcases List.append_eq_append_iff.1 h with ⟨x, hc, hx⟩ | ⟨x, hax, hx⟩
  · cases x with
    | nil => exact Or.inl ⟨by rw [hc, List.append_nil], List.cons.inj hx⟩
    | cons y x =>
      rw [List.cons_append, List.cons.injEq] at hx
      exact Or.inr ⟨x, by rw [hc, hx.1], hx.2⟩
  · cases x with
    | nil => exact Or.inl ⟨by rw [hax, List.append_nil], (List.cons.inj hx).1.symm,
        (List.cons.inj hx).2.symm⟩
    | cons y x =>
      rw [List.cons_append, List.cons.injEq] at hx
      have := ha e' (by rw [hax, hx.1]; simp)
      rw [event'] at this
      cases this

/-- The record of an interval is right just if it has at least two event frames, and frame numbers
that fit. -/
theorem interval_iff (idle : r.core.curTick.nframes = 0)
    (pos : 0 < r.core.st.frames) (stale : r.core.curTick.stopFrame ≤ r.core.st.frames - 1)
    (noTick : ∀ f ∈ mid, f.validTick = false)
    (first : mid = a ++ e :: b) (event : e.validEvent = true) (ha : ∀ f ∈ a, f.validEvent = false)
    (last : mid = c ++ e' :: d) (event' : e'.validEvent = true)
    (hd : ∀ f ∈ d, f.validEvent = false) :
    ((r.run mid).core.curTick.startFrame % 2 ^ 32 = r.core.st.frames + a.length ∧
        (r.run mid).core.curTick.stopFrame % 2 ^ 32 = r.core.st.frames + c.length) ↔
      a.length < c.length ∧ r.core.st.frames + c.length < 2 ^ 32 := by
  have hmod := Nat.mod_lt (r.run mid).core.curTick.stopFrame (by decide : 0 < 2 ^ 32)
  rcases first_le_last (first.symm.trans last) ha event' with ⟨rfl, rfl, rfl⟩ | ⟨x, rfl, rfl⟩
  · subst first
    have hle := Nat.mod_le r.core.curTick.stopFrame (2 ^ 32)
    rw [run_curTick_of_one idle noTick event ha hd]
    constructor
    · rintro ⟨-, h⟩
      omega
    · rintro ⟨h, -⟩
      exact absurd h (Nat.lt_irrefl _)
  · subst first
    have hlen : (a ++ e :: x).length = a.length + 1 + x.length := by
      rw [List.length_append, List.length_cons]
      omega
    rw [hlen]
    constructor
    · rintro ⟨-, h⟩
      exact ⟨by omega, by omega⟩
    · rintro ⟨-, h⟩
      obtain ⟨hstart, hstop⟩ := run_curTick_of_more idle noTick event event' ha hd (by omega)
      rw [hstart, hstop, Nat.mod_mod, Nat.mod_mod]
      exact ⟨Nat.mod_eq_of_lt (by omega), by rw [Nat.mod_eq_of_lt (by omega)]; omega⟩

end Interval

/-! ## The file of a job -/

/-- The frame numbers that a record of the tick index holds. -/
def tidxRead (bytes : List UInt8) : ℕ × ℕ := (ofLe (bytes.take 4), ofLe (bytes.drop 4))

/-- The records of a tick index. -/
def tidxRecords (file : List UInt8) : List (ℕ × ℕ) := (pieces TIDX_LEN file).map tidxRead

theorem tidxRead_bytes (t : CurTick) :
    tidxRead t.bytes = (t.startFrame % 2 ^ 32, t.stopFrame % 2 ^ 32) := by
  rw [tidxRead, CurTick.bytes, List.take_left' (length_leBytes 4 _),
    List.drop_left' (length_leBytes 4 _), ofLe_leBytes, ofLe_leBytes,
    (by decide : 256 ^ 4 = 2 ^ 32)]

theorem tidxRecords_flatMap (ts : List CurTick) :
    tidxRecords (ts.flatMap CurTick.bytes) =
      ts.map fun t => (t.startFrame % 2 ^ 32, t.stopFrame % 2 ^ 32) := by
  rw [tidxRecords, pieces_flatMap length_curTick_bytes (by decide), List.map_map]
  exact List.map_congr_left fun t _ => tidxRead_bytes t

/-- In a job without I/O errors the tick index has a record for every two consecutive valid ticks.
If there are valid event frames between the two, the record names the first and the last of them
just if they are not the same frame, and the number of the last fits into 32 bits. -/
theorem tick_index_iff (fuel : ℕ) (hf : 4 ≤ fuel) (env : Env) (s : Setup) (fs : List Frame) :
    ∃ handled report, runJob fuel env fs (openJob s) = some (handled, report) ∧ handled <+: fs ∧
      ((∀ ds, report.lost ds = false) →
        (report.files .tidx).length = TIDX_LEN * (tidxRecords (report.files .tidx)).length ∧
        (tidxRecords (report.files .tidx)).length =
          (recorded handled).countP Frame.validTick - 1 ∧
        ∀ pre tick mid tick' post, recorded handled = pre ++ tick :: (mid ++ tick' :: post) →
          tick.validTick = true → tick'.validTick = true → (∀ f ∈ mid, f.validTick = false) →
          ∃ start stop, (tidxRecords (report.files .tidx))[pre.countP Frame.validTick]? =
              some (start, stop) ∧
            ∀ a e b c e' d, mid = a ++ e :: b → e.validEvent = true →
              (∀ f ∈ a, f.validEvent = false) → mid = c ++ e' :: d → e'.validEvent = true →
              (∀ f ∈ d, f.validEvent = false) →
              ((start = pre.length + 1 + a.length ∧ stop = pre.length + 1 + c.length) ↔
                a.length < c.length ∧ pre.length + 1 + c.length < 2 ^ 32)) := by
  obtain ⟨handled, report, hrun, hend⟩ := runJob_spec False hf env s fs False.elim
  refine ⟨handled, report, hrun, hend.pre, fun clean => ?_⟩
  obtain ⟨hfile, -⟩ := files_of_reports hend.reports clean (Or.inr (by decide) : Known False .tidx)
  generalize recorded handled = rec at hend hfile ⊢
  have hlen := length_tidxOf rec (Recorder.init s)
  have hzero : (Recorder.init s).core.st.ticks = 0 := rfl
  rw [hzero] at hlen
  have hempty : (Recorder.init s).files .tidx = [] := rfl
  rw [run_files_tidx, hempty, List.nil_append] at hfile
  rw [hfile, tidxRecords_flatMap, length_flatMap_of_length length_curTick_bytes, List.length_map]
  refine ⟨rfl, by omega, ?_⟩
  rintro pre tick mid tick' post rfl htick htick' noTick
  obtain ⟨before, after, hts, hbefore⟩ := tidxOf_split (Recorder.init s) post hzero htick htick'
    noTick
  obtain ⟨r, hr⟩ : ∃ r, r = ((Recorder.init s).run pre).record tick := ⟨_, rfl⟩
  rw [← hr] at hts
  refine ⟨(r.run mid).core.curTick.startFrame % 2 ^ 32, (r.run mid).core.curTick.stopFrame % 2 ^ 32,
    ?_, fun a e b c e' d first event ha last event' hd => ?_⟩
  · rw [hts, List.map_append, List.map_cons, ← hbefore,
      List.getElem?_append_right (by rw [List.length_map]), List.length_map, Nat.sub_self]
    rfl
  · have hcur := curTick_of_tick ((Recorder.init s).run pre) htick
    have hframes : (((Recorder.init s).run pre).record tick).core.st.frames = pre.length + 1 := by
      rw [(record_frame tick _).2.2.2.2.1, (run_frame pre _).2.2.2.2]
      exact congrArg (· + 1) (Nat.zero_add _)
    have stale := record_stopFrame_le _ tick
      (run_stopFrame_le (Recorder.init s) pre (Nat.zero_le _))
    rw [← hr] at hcur hframes stale
    rw [← hframes]
    exact interval_iff (by rw [hcur]) (by omega) stale noTick first event ha last event' hd

/-- A peak alone between two ticks: the record says that the last event frame is frame 0. -/
theorem not_tick_index :
    ¬ ∀ fuel, 4 ≤ fuel → ∀ env s fs handled report,
      runJob fuel env fs (openJob s) = some (handled, report) → (∀ ds, report.lost ds = false) →
      ∀ pre tick mid tick' post, recorded handled = pre ++ tick :: (mid ++ tick' :: post) →
        tick.validTick = true → tick'.validTick = true → (∀ f ∈ mid, f.validTick = false) →
        ∀ a e b c e' d, mid = a ++ e :: b → e.validEvent = true →
          (∀ f ∈ a, f.validEvent = false) → mid = c ++ e' :: d → e'.validEvent = true →
          (∀ f ∈ d, f.validEvent = false) →
          (tidxRecords (report.files .tidx))[pre.countP Frame.validTick]? =
            some (pre.length + 1 + a.length, pre.length + 1 + c.length) := by
  intro claim
  have hrun : (runJob 4 smallEnv [.tick, .peak, .tick] (openJob smallJob)).map (fun p =>
      (p.1.length, (Dset.all.all fun ds => !p.2.lost ds), tidxRecords (p.2.files .tidx))) =
      some (3, true, [(1, 0)]) := by
    decide +kernel
  obtain ⟨⟨handled, report⟩, h, hreport⟩ := Option.map_eq_some_iff.1 hrun
  simp only [Prod.mk.injEq] at hreport
  obtain ⟨hlen, hlost, hrecords⟩ := hreport
  obtain rfl := List.IsPrefix.eq_of_length (handled_isPrefix (by decide) h) hlen
  have hrec : recorded [Frame.tick, .peak, .tick] = [] ++ .tick :: ([.peak] ++ .tick :: []) :=
    recorded_cons_of_tick (by decide +kernel) _
  have peak : ∀ f ∈ [Frame.peak], f.validTick = false := by decide +kernel
  have := claim 4 (by decide) smallEnv smallJob _ _ report h (lost_eq_false hlost) [] .tick [.peak]
    .tick [] hrec (by decide +kernel) (by decide +kernel) peak [] .peak [] [] .peak [] rfl
    (by decide +kernel) (by simp) rfl (by decide +kernel) (by simp)
  rw [hrecords] at this
  simp at this

theorem tick_index_iff_two : ∃ handled report,
    runJob 4 smallEnv [.tick, .peak, .peak, .tick] (openJob smallJob) = some (handled, report) ∧
    (tidxRecords (report.files .tidx)).length = 1 ∧
    (tidxRecords (report.files .tidx))[0]? = some (1, 2) := by
  obtain ⟨handled, report, h, hpre, hindex⟩ := tick_index_iff 4 (by decide) smallEnv smallJob
    [.tick, .peak, .peak, .tick]
  have hrun : (runJob 4 smallEnv [.tick, .peak, .peak, .tick] (openJob smallJob)).map (fun p =>
      (p.1.length, (Dset.all.all fun ds => !p.2.lost ds))) = some (4, true) := by
    decide +kernel
  rw [h] at hrun
  obtain ⟨hlen, hlost⟩ := Prod.mk.inj (Option.some.inj hrun)
  obtain rfl := List.IsPrefix.eq_of_length hpre hlen
  obtain ⟨-, hcount, hpairs⟩ := hindex (lost_eq_false hlost)
  have hrec : recorded [Frame.tick, .peak, .peak, .tick] =
      [] ++ .tick :: ([.peak, .peak] ++ .tick :: []) :=
    recorded_cons_of_tick (by decide +kernel) _
  obtain ⟨start, stop, hget, hiff⟩ := hpairs [] .tick [.peak, .peak] .tick [] hrec
    (by decide +kernel) (by decide +kernel) (by decide +kernel)
  obtain ⟨rfl, rfl⟩ := (hiff [] .peak [.peak] [.peak] .peak [] rfl (by decide +kernel) (by simp) rfl
    (by decide +kernel) (by simp)).2 (by decide)
  refine ⟨_, report, h, ?_, hget⟩
  rw [hcount, hrec]
  decide +kernel

end Tesd
