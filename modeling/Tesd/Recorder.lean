import Tesd.AiobufProof
import Tesd.Stored

/-!
# The capture task refines a recorder of append-only files

A `Recorder` keeps the job's core and eight files to which records and payloads are appended at
once.  The job with its buffers and its kernel follows it frame by frame (`taskCapPktHn_spec`), and
whatever was not lost is in the files when the job ends (`runJob_spec`).

A bad frame may be stored with a length that a frame cannot have.  If the buffer of `.bdat` has no
room for it, the buffer does not hold what was queued.  `exact` says that this does not happen;
without it the statements are about the other files.
-/

namespace Tesd

open Slice LittleEndian Aiobuf

/-- A job whose files take every byte at once. -/
structure Recorder where
  core : Core
  files : Dset → List UInt8

namespace Recorder

def append (ds : Dset) (buf : List UInt8) (r : Recorder) : Recorder :=
  { r with files := Function.update r.files ds (r.files ds ++ buf) }

def appendDue (due : Option (Dset × List UInt8)) (r : Recorder) : Recorder :=
  match due with
  | none => r
  | some (ds, buf) => r.append ds buf

/-- The frame's record and the core after one recorded frame, with the stream record that is due. -/
def index (f : Frame) (r : Recorder) : Core × Fidx × Option (Dset × List UInt8) × Bool :=
  let start := (r.files f.dset).length
  let p := (r.core.count f).indexFrame f
  p.1.indexStream f start { p.2.1 with start := start }

/-- The tick record that is due. -/
def tickDue (f : Frame) (r : Recorder) : Option (Dset × List UInt8) :=
  ((r.core.count f).indexFrame f).2.2.map fun buf => (Dset.tidx, buf)

/-- One recorded frame. -/
def record (f : Frame) (r : Recorder) : Recorder :=
  let p := r.index f
  ((({ r with core := p.1 }.appendDue (r.tickDue f)).appendDue p.2.2.1).append f.dset
    f.payload).append .fidx p.2.1.bytes

def run (fs : List Frame) (r : Recorder) : Recorder := fs.foldl (fun r f => r.record f) r

/-- What a job is once its recording starts. -/
def init (s : Setup) : Recorder where
  core := { (openJob s).core with recording := true }
  files := fun _ => []

section Record

variable (f : Frame) (r : Recorder)

theorem appendDue_core (due : Option (Dset × List UInt8)) : (r.appendDue due).core = r.core := by
  cases due <;> rfl

theorem record_core : (r.record f).core = (r.index f).1 := by
  unfold record
  dsimp only [append]
  rw [appendDue_core, appendDue_core]

theorem record_files :
    (r.record f).files = ((((r.appendDue (r.tickDue f)).appendDue (r.index f).2.2.1).append f.dset
      f.payload).append .fidx (r.index f).2.1.bytes).files := by
  unfold record
  dsimp only [append]
  cases r.tickDue f <;> cases (r.index f).2.2.1 <;> rfl

end Record

end Recorder

/-- The files whose buffers hold what was queued. -/
def Kept (exact : Prop) (ds : Dset) : Prop := exact ∨ ds ≠ .bdat

/-- The files whose bytes the recorder knows: a bad frame's record names a place in `.bdat`. -/
def Known (exact : Prop) (ds : Dset) : Prop := exact ∨ ds ≠ .bdat ∧ ds ≠ .fidx

theorem kept_of_known {exact : Prop} {ds : Dset} (h : Known exact ds) : Kept exact ds :=
  h.imp id And.left

/-- A buffer holds what was queued, and what was queued is what the recorder has. -/
structure Follows (exact : Prop) (ds : Dset) (b : Aiobuf) (queued file : List UInt8) : Prop where
  zone : Zone b
  sized : Sized b
  inv : Kept exact ds → Inv b
  ready : Kept exact ds → b.lost = false → Ready b
  content : Kept exact ds → b.content = queued
  queued : Known exact ds → queued = file

/-- The job follows the recorder. -/
def Tracks (exact : Prop) (job : Job) (r : Recorder) : Prop :=
  ∀ ds, Follows exact ds (job.aio ds) (job.queued ds) (r.files ds)

theorem tracks_of_files {exact : Prop} {job : Job} {r r' : Recorder} (h : r.files = r'.files)
    (tracks : Tracks exact job r) : Tracks exact job r' := fun ds => by
  rw [← h]
  exact tracks ds

/-- What has been lost stays lost. -/
def LostStays (job job' : Job) : Prop :=
  ∀ ds, (job.aio ds).lost = true → (job'.aio ds).lost = true

/-- Nothing has been lost so far. -/
def Live (exact : Prop) (job : Job) : Prop := ∀ ds, Kept exact ds → (job.aio ds).lost = false

/-- The job after a buffer was queued for a dataset. -/
def Job.extended (ds : Dset) (buf : List UInt8) (b : Aiobuf) (job : Job) : Job :=
  { job with
    aio := Function.update job.aio ds b
    queued := Function.update job.queued ds (job.queued ds ++ buf) }

@[simp] theorem extended_aio_self (job : Job) (ds : Dset) (buf : List UInt8) (b : Aiobuf) :
    (job.extended ds buf b).aio ds = b :=
  Function.update_self _ _ _

@[simp] theorem extended_aio_of_ne (job : Job) {ds d : Dset} (buf : List UInt8) (b : Aiobuf)
    (h : d ≠ ds) : (job.extended ds buf b).aio d = job.aio d :=
  Function.update_of_ne h _ _

/-- Queueing for a file that has not lost anything is all that can make the job lose something. -/
theorem live_extended {exact : Prop} {job : Job} {ds : Dset} (buf : List UInt8) (b : Aiobuf)
    (ok : Kept exact ds → (job.aio ds).lost = false) :
    Live exact (job.extended ds buf b) ↔ Live exact job ∧ (Kept exact ds → b.lost = false) := by
  constructor
  · intro live
    refine ⟨fun d hd => ?_, fun hk => ?_⟩
    · by_cases he : d = ds
      · exact he ▸ ok (he ▸ hd)
      · have := live d hd
        rwa [extended_aio_of_ne _ _ _ he] at this
    · have := live ds hk
      rwa [extended_aio_self] at this
  · intro ⟨live, hb⟩ d hd
    by_cases he : d = ds
    · subst he
      rw [extended_aio_self]
      exact hb hd
    · rw [extended_aio_of_ne _ _ _ he]
      exact live d hd

section Queue

variable {exact : Prop} {fuel : ℕ} {job : Job} {r : Recorder}

/-- A call of `s_try_queue_aiobuf` on a file that has not lost anything. -/
theorem queue_spec (hf : 4 ≤ fuel) (tracks : Tracks exact job r) (ds : Dset)
    (buf buf' : List UInt8) (hmax : buf.length ≤ BUFSIZE)
    (room : Kept exact ds → HasRoom (job.aio ds) buf.length)
    (ok : Kept exact ds → (job.aio ds).lost = false)
    (same : Known exact ds → buf = buf') :
    ∃ failed b, job.queue fuel ds buf = some (failed, job.extended ds buf b) ∧
      Tracks exact (job.extended ds buf b) (r.append ds buf') ∧
      LostStays job (job.extended ds buf b) ∧ (failed = true → b.lost = true) ∧
      (Kept exact ds → failed = b.lost) := by
  have t := tracks ds
  obtain ⟨⟨rc, b⟩, h, z⟩ := tryQueueAiobuf_total hf t.zone buf hmax
  have honest := tryQueueAiobuf_honest t.sized h
  have app : Kept exact ds → Appended buf (job.aio ds) rc b := fun hk =>
    tryQueueAiobuf_spec (t.inv hk) (t.ready hk (ok hk)) (room hk) h
  refine ⟨rc.neg, b, by rw [Job.queue, h]; rfl, fun d => ?_, fun d hl => ?_, honest.neg,
    fun hk => (app hk).neg⟩
  · by_cases hd : d = ds
    · subst hd
      simp only [Job.extended, Recorder.append, Function.update_self]
      exact ⟨z, honest.sized, fun hk => (app hk).inv, fun hk => (app hk).ready,
        fun hk => by rw [(app hk).content, t.content hk], fun hk => by rw [t.queued hk, same hk]⟩
    · simp only [Job.extended, Recorder.append, Function.update_of_ne hd]
      exact tracks d
  · by_cases hd : d = ds
    · subst hd
      rw [extended_aio_self]
      exact honest.stays hl
    · rwa [extended_aio_of_ne _ _ _ hd]

/-- The same for a record that may be due. -/
theorem queueDue_spec (hf : 4 ≤ fuel) (tracks : Tracks exact job r)
    (due : Option (Dset × List UInt8))
    (fits : ∀ ds buf, due = some (ds, buf) → ds ≠ .bdat ∧ buf.length ≤ MTU)
    (ok : ∀ ds buf, due = some (ds, buf) → (job.aio ds).lost = false) :
    ∃ failed job', job.queueDue fuel due = some (failed, job') ∧ job'.core = job.core ∧
      Tracks exact job' (r.appendDue due) ∧
      (∀ ds, (∀ buf, due ≠ some (ds, buf)) → job'.aio ds = job.aio ds) ∧
      LostStays job job' ∧ (failed = true → ∃ ds, (job'.aio ds).lost = true) ∧
      (Live exact job' ↔ Live exact job ∧ failed = false) := by
  cases due with
  | none => exact ⟨false, job, rfl, rfl, tracks, fun _ _ => rfl, fun _ => id, by simp, by simp⟩
  | some due =>
    obtain ⟨ds, buf⟩ := due
    obtain ⟨hne, hlen⟩ := fits ds buf rfl
    obtain ⟨failed, b, h, tracks', stays, hlost, hfailed⟩ := queue_spec hf tracks ds buf buf
      (hlen.trans (by decide))
      (fun hk => hasRoom_of_ready ((tracks ds).ready hk (ok ds buf rfl)) hlen)
      (fun _ => ok ds buf rfl) fun _ => rfl
    refine ⟨failed, _, h, rfl, tracks', fun d hd => ?_, stays, fun hfail => ⟨ds, ?_⟩, ?_⟩
    · have : d ≠ ds := fun he => hd buf (by rw [he])
      exact extended_aio_of_ne _ _ _ this
    · rw [extended_aio_self]
      exact hlost hfail
    · rw [live_extended buf b fun _ => ok ds buf rfl, hfailed (Or.inr hne)]
      exact and_congr_right fun _ => ⟨fun h => h (Or.inr hne), fun h _ => h⟩

end Queue

/-! ## The end of a job -/

theorem lost_eq_false {report : Report} (h : (Dset.all.all fun ds => !report.lost ds) = true)
    (ds : Dset) : report.lost ds = false := by
  have := List.all_eq_true.1 h ds ds.mem_all
  rwa [Bool.not_eq_true'] at this

/-- What a flush does to one buffer. -/
structure Flushed (b b' : Aiobuf) : Prop where
  inv : Inv b'
  content : b'.content = b.content
  empty : b'.lost = false → b'.enqueued = 0 ∧ b'.waiting = 0

theorem flush_spec {fuel : ℕ} (hf : 4 ≤ fuel) (dss : List Dset) (job : Job) (nodup : dss.Nodup)
    (zone : ∀ ds ∈ dss, Zone (job.aio ds)) (sized : ∀ ds ∈ dss, Sized (job.aio ds)) :
    ∃ job', job.flush fuel dss = some job' ∧ job'.core = job.core ∧ job'.queued = job.queued ∧
      (∀ ds, ds ∉ dss → job'.aio ds = job.aio ds) ∧ LostStays job job' ∧
      ∀ ds ∈ dss, Inv (job.aio ds) → Flushed (job.aio ds) (job'.aio ds) := by
  induction dss generalizing job with
  | nil => exact ⟨job, rfl, rfl, rfl, fun _ _ => rfl, fun _ => id, fun ds hds => absurd hds (by simp)⟩
  | cons ds dss ih =>
    rw [List.nodup_cons] at nodup
    obtain ⟨b, hb⟩ := flushAiobuf_total (zone ds (by simp))
      (Nat.le_trans (Nat.add_le_add_right (rounds_le _) 1) (by omega : 2 + 1 ≤ fuel))
    have hne : ∀ d ∈ dss, Function.update job.aio ds b d = job.aio d := fun d hd => by
      have : d ≠ ds := fun he => nodup.1 (he ▸ hd)
      exact Function.update_of_ne this _ _
    obtain ⟨job', h, hcore, hqueued, hother, stays, hflushed⟩ :=
      ih { job with aio := Function.update job.aio ds b } nodup.2
        (fun d hd => by
          dsimp only
          rw [hne d hd]
          exact zone d (List.mem_cons_of_mem _ hd)) fun d hd => by
          dsimp only
          rw [hne d hd]
          exact sized d (List.mem_cons_of_mem _ hd)
    dsimp only at hother hflushed
    refine ⟨job', by rw [Job.flush, hb]; exact h, hcore, hqueued, fun d hd => ?_,
      fun d hl => stays d ?_, fun d hd inv => ?_⟩
    · rw [List.mem_cons, not_or] at hd
      rw [hother d hd.2, Function.update_of_ne hd.1]
    · dsimp only
      by_cases he : d = ds
      · subst he
        rw [Function.update_self]
        exact (flushAiobuf_honest (sized d (by simp)) hb).2 hl
      · rwa [Function.update_of_ne he]
    · rcases List.mem_cons.1 hd with rfl | hd
      · rw [hother d nodup.1, Function.update_self]
        obtain ⟨inv', hc, hempty⟩ := flushAiobuf_spec inv hb
        exact ⟨inv', hc, hempty⟩
      · have := hflushed d hd
        rw [hne d hd] at this
        exact this inv

/-- What a report says about the recorder's state at the end of the job. -/
structure Reports (exact : Prop) (r : Recorder) (report : Report) : Prop where
  st : report.st = r.core.st
  queued : ∀ ds, Known exact ds → report.queued ds = r.files ds
  whole : ∀ ds, Kept exact ds → report.lost ds = false →
    report.files ds = report.queued ds ∧ (report.files ds).length ≤ OFF_MAX
  short : ∀ ds, Kept exact ds → report.lost ds = true →
    (report.files ds).length < (report.queued ds).length

theorem close_spec {exact : Prop} {job : Job} {r : Recorder} (hcore : job.core = r.core)
    (flushed : ∀ ds, Kept exact ds → ∃ b, Flushed b (job.aio ds) ∧ b.content = job.queued ds)
    (queued : ∀ ds, Known exact ds → job.queued ds = r.files ds) (status : CapStatus) :
    Reports exact r (job.close status).1 := by
  refine ⟨by rw [← hcore]; rfl, queued, fun ds hk hl => ?_, fun ds hk hl => ?_⟩
  · obtain ⟨b, f, hc⟩ := flushed ds hk
    obtain ⟨he, hw⟩ := f.empty hl
    have hcontent := f.content.trans hc
    refine ⟨?_, ?_⟩
    · rw [content, he, hw, slice_zero, List.append_nil] at hcontent
      exact hcontent
    · show (slice (job.aio ds).file 0 (job.aio ds).size).length ≤ OFF_MAX
      rw [length_slice]
      exact f.inv.size_le
  · obtain ⟨b, f, hc⟩ := flushed ds hk
    have hne := (f.inv.dead hl).1
    have hlen := length_content (job.aio ds)
    rw [f.content, hc] at hlen
    show (slice (job.aio ds).file 0 (job.aio ds).size).length < (job.queued ds).length
    rw [length_slice, hlen]
    omega

theorem flush_all_spec {exact : Prop} {fuel : ℕ} (hf : 4 ≤ fuel) {job : Job} {r : Recorder}
    (hcore : job.core = r.core) (tracks : Tracks exact job r) :
    ∃ job', job.flush fuel Dset.all = some job' ∧ job'.core = r.core ∧
      ∀ status, Reports exact r (job'.close status).1 ∧
        ∀ ds, (job.aio ds).lost = true → (job'.close status).1.lost ds = true := by
  obtain ⟨job', h, hcore', hqueued, -, stays, hflushed⟩ :=
    flush_spec hf Dset.all job (by decide) (fun ds _ => (tracks ds).zone) fun ds _ =>
      (tracks ds).sized
  have flushed : ∀ ds, Kept exact ds → Flushed (job.aio ds) (job'.aio ds) := fun ds hk =>
    hflushed ds ds.mem_all ((tracks ds).inv hk)
  refine ⟨job', h, hcore'.trans hcore, fun status => ⟨close_spec (hcore'.trans hcore)
    (fun ds hk => ⟨job.aio ds, flushed ds hk, ?_⟩) (fun ds hk => ?_) status, stays⟩⟩
  · rw [hqueued]
    exact (tracks ds).content hk
  · rw [hqueued]
    exact (tracks ds).queued hk

theorem finish_spec {exact : Prop} {fuel : ℕ} (hf : 4 ≤ fuel) (env : Env) {job : Job}
    {r : Recorder} (hcore : job.core = r.core) (tracks : Tracks exact job r) :
    ∃ report job', job.finish fuel env = some (report, job') ∧ Reports exact r report ∧
      report.status = r.core.finalStatus env ∧
      ∀ ds, (job.aio ds).lost = true → report.lost ds = true := by
  obtain ⟨job', h, hcore', hclose⟩ := flush_all_spec hf hcore tracks
  refine ⟨_, _, by rw [Job.finish, h], (hclose _).1, ?_, (hclose _).2⟩
  rw [← hcore']
  rfl

theorem fin_spec {exact : Prop} {fuel : ℕ} (hf : 4 ≤ fuel) {job : Job} {r : Recorder}
    (hcore : job.core = r.core) (tracks : Tracks exact job r) :
    ∃ report job', job.fin fuel = some (report, job') ∧ Reports exact r report ∧
      report.status = .ewrt := by
  obtain ⟨job', h, -, hclose⟩ := flush_all_spec hf hcore tracks
  exact ⟨_, _, by rw [Job.fin, h], (hclose _).1, rfl⟩

/-! ## One frame -/

theorem dset_eq_bdat {f : Frame} : f.dset = .bdat ↔ f.err ≠ 0 := by
  unfold Frame.dset
  split_ifs with h <;> simp [h]

theorem dset_ne_index (f : Frame) :
    f.dset ≠ .fidx ∧ f.dset ≠ .midx ∧ f.dset ≠ .tidx ∧ f.dset ≠ .ridx := by
  unfold Frame.dset
  split_ifs <;> simp

@[simp] theorem length_fidx_bytes (r : Fidx) : r.bytes.length = FIDX_LEN := by
  simp [Fidx.bytes, FIDX_LEN]

@[simp] theorem length_curTick_bytes (t : CurTick) : t.bytes.length = TIDX_LEN := by
  simp [CurTick.bytes, TIDX_LEN]

@[simp] theorem length_sidxBytes (start length : ℕ) :
    (sidxBytes start length).length = SIDX_LEN := by
  simp [sidxBytes, SIDX_LEN]

theorem indexFrame_due {f : Frame} {c : Core} {buf : List UInt8}
    (h : (c.indexFrame f).2.2 = some buf) : buf.length = TIDX_LEN := by
  unfold Core.indexFrame at h
  dsimp only at h
  split_ifs at h
  all_goals simp at h
  rw [← h, length_curTick_bytes]

theorem checkStream_due {isTrace : Bool} {c : Core} {ds : Dset} {buf : List UInt8}
    (h : (c.checkStream isTrace).2 = some (ds, buf)) :
    (ds = .ridx ∨ ds = .midx) ∧ buf.length = SIDX_LEN := by
  unfold Core.checkStream at h
  split_ifs at h
  all_goals
    obtain ⟨rfl, rfl⟩ := Prod.mk.inj (Option.some.inj h)
    exact ⟨by simp, length_sidxBytes _ _⟩

theorem extendStream_due {f : Frame} {c : Core} {ds : Dset} {buf : List UInt8}
    (h : (c.extendStream f).2 = some (ds, buf)) :
    (ds = .ridx ∨ ds = .midx) ∧ buf.length = SIDX_LEN := by
  rw [Core.extendStream] at h
  exact checkStream_due h

/-- A bad frame leaves the stream alone. -/
theorem indexStream_of_err {f : Frame} (h : f.err ≠ 0) (start : ℕ) (fidx : Fidx) (c : Core) :
    c.indexStream f start fidx = (c, fidx, none, false) := by
  rw [Core.indexStream, if_pos h]

section Cases

variable {f : Frame} {c : Core} (start : ℕ) (fidx : Fidx)

theorem interruptsStream_of_startsStream (h : c.startsStream f = true) :
    c.interruptsStream f = false := by
  unfold Core.startsStream at h
  unfold Core.interruptsStream
  rw [Bool.and_eq_true, decide_eq_true_iff] at h
  simp [h.2]

theorem interruptsStream_of_continuesStream (h : c.continuesStream f = true) :
    c.interruptsStream f = false := by
  rw [Core.interruptsStream, h]
  rfl

theorem startsStream_of_continuesStream (h : c.continuesStream f = true) :
    c.startsStream f = false := by
  unfold Core.continuesStream at h
  unfold Core.startsStream
  simp only [Bool.and_eq_true, decide_eq_true_iff] at h
  have : c.curStream.size ≠ 0 := by omega
  simp [this]

theorem indexStream_of_starts (ok : f.err = 0) (h : c.startsStream f = true) :
    c.indexStream f start fidx =
      (((c.startStream f start).extendStream f).1, { fidx with hdr := true },
        ((c.startStream f start).extendStream f).2, false) := by
  rw [Core.indexStream, if_neg (not_not.2 ok)]
  simp only [h, if_true, interruptsStream_of_startsStream h, Bool.false_eq_true, if_false]

theorem indexStream_of_continues (ok : f.err = 0) (h : c.continuesStream f = true) :
    c.indexStream f start fidx = ((c.extendStream f).1, fidx, (c.extendStream f).2, false) := by
  rw [Core.indexStream, if_neg (not_not.2 ok)]
  simp only [h, if_true, interruptsStream_of_continuesStream h, startsStream_of_continuesStream h,
    Bool.false_eq_true, if_false]

/-- The core once a stream that the frame interrupts is given up. -/
def Core.interrupted (f : Frame) (c : Core) : Core :=
  if c.interruptsStream f then c.discardStream else c

/-- A frame of a stream whose beginning was missed, or that is being discarded. -/
theorem indexStream_of_orphan (ok : f.err = 0) (hs : c.startsStream f = false)
    (hc : c.continuesStream f = false) (kind : f.pkt.isMca = true ∨ f.pkt.isTraceLong = true) :
    c.indexStream f start fidx =
      ({ c.interrupted f with
        curStream := { (c.interrupted f).curStream with discard := true } }, fidx, none, false) := by
  rw [Core.indexStream, if_neg (not_not.2 ok)]
  simp only [hs, hc, Bool.false_eq_true, if_false, Bool.or_eq_true, kind, if_true, Core.interrupted]
  cases c.interruptsStream f <;> simp [Core.discardStream]

theorem indexStream_of_tick (ok : f.err = 0) (hs : c.startsStream f = false)
    (hc : c.continuesStream f = false) (hm : f.pkt.isMca = false)
    (ht : f.pkt.isTraceLong = false) (tick : f.pkt.isTick = true) :
    c.indexStream f start fidx =
      ({ c.interrupted f with
        st := { (c.interrupted f).st with ticks := (c.interrupted f).st.ticks + 1 } },
        fidx, none,
        decide ((c.interrupted f).st.ticks + 1 > (c.interrupted f).minTicks ∧
          (c.interrupted f).st.events ≥ (c.interrupted f).minEvents)) := by
  rw [Core.indexStream, if_neg (not_not.2 ok)]
  simp only [hs, hc, hm, ht, tick, Bool.false_eq_true, if_false, Bool.or_self, if_true,
    Core.interrupted]
  rfl

theorem indexStream_of_event (ok : f.err = 0) (hs : c.startsStream f = false)
    (hc : c.continuesStream f = false) (hm : f.pkt.isMca = false)
    (ht : f.pkt.isTraceLong = false) (tick : f.pkt.isTick = false) :
    c.indexStream f start fidx =
      ({ c.interrupted f with
        st := { (c.interrupted f).st with
          events := (c.interrupted f).st.events + f.pkt.eventNums } }, fidx, none, false) := by
  rw [Core.indexStream, if_neg (not_not.2 ok)]
  simp only [hs, hc, hm, ht, tick, Bool.false_eq_true, if_false, Bool.or_self, Core.interrupted]

theorem indexStream_due {ds : Dset} {buf : List UInt8}
    (h : (c.indexStream f start fidx).2.2.1 = some (ds, buf)) :
    (ds = .ridx ∨ ds = .midx) ∧ buf.length = SIDX_LEN := by
  by_cases ok : f.err = 0
  · cases hs : c.startsStream f with
    | true =>
      rw [indexStream_of_starts start fidx ok hs] at h
      exact extendStream_due h
    | false =>
      cases hc : c.continuesStream f with
      | true =>
        rw [indexStream_of_continues start fidx ok hc] at h
        exact extendStream_due h
      | false =>
        by_cases kind : f.pkt.isMca = true ∨ f.pkt.isTraceLong = true
        · rw [indexStream_of_orphan start fidx ok hs hc kind] at h
          cases h
        · rw [not_or, Bool.not_eq_true, Bool.not_eq_true] at kind
          cases tick : f.pkt.isTick with
          | true =>
            rw [indexStream_of_tick start fidx ok hs hc kind.1 kind.2 tick] at h
            cases h
          | false =>
            rw [indexStream_of_event start fidx ok hs hc kind.1 kind.2 tick] at h
            cases h
  · rw [indexStream_of_err ok] at h
    cases h

end Cases

theorem position_eq {b : Aiobuf} (inv : Inv b) : b.position = b.content.length := by
  have hroom := inv.room
  have hsize := inv.size_le
  have hsum : OFF_MAX + BUFSIZE < SIZE_MOD := by simp [OFF_MAX, BUFSIZE, SIZE_MOD]
  rw [length_content, position, Nat.add_right_comm]
  exact Nat.mod_eq_of_lt (by omega)

/-- The handler, for a frame that it records. -/
theorem taskCapPktHn_eq (fuel : ℕ) (env : Env) (f : Frame) (job : Job)
    (hrec : (job.core.arrive f).recording = true) :
    taskCapPktHn fuel env f job =
      (Job.queueDue fuel
        ((((job.core.arrive f).count f).indexFrame f).2.2.map fun buf => (Dset.tidx, buf))
        { job with core := (((job.core.arrive f).count f).indexFrame f).1 }).bind fun q₁ =>
      let start := (q₁.2.aio f.dset).position
      let p := q₁.2.core.indexStream f start
        { (((job.core.arrive f).count f).indexFrame f).2.1 with start := start }
      (Job.queueDue fuel p.2.2.1 { q₁.2 with core := p.1 }).bind fun q₂ =>
      (q₂.2.queue fuel f.dset f.payload).bind fun q₃ =>
      (q₃.2.queue fuel .fidx p.2.1.bytes).bind fun q₄ =>
      if q₁.1 || p.2.2.2 || q₂.1 || q₃.1 || q₄.1 then
        (q₄.2.finish fuel env).bind fun q => some (some q.1, q.2)
      else some (none, q₄.2) := by
  unfold taskCapPktHn
  dsimp only
  rw [if_neg (by rw [hrec]; decide)]
  rfl

theorem position_eq_length {exact : Prop} {ds : Dset} {b : Aiobuf} {queued file : List UInt8}
    (follows : Follows exact ds b queued file) (known : Known exact ds) :
    b.position = file.length := by
  have kept := kept_of_known known
  rw [position_eq (follows.inv kept), follows.content kept, follows.queued known]

theorem known_dset {exact : Prop} {f : Frame} (ok : f.err = 0) : Known exact f.dset :=
  Or.inr ⟨fun h => dset_eq_bdat.1 h ok, (dset_ne_index f).1⟩

/-- The start that a record gets matters to the other data only if it is known. -/
theorem indexStream_start {exact : Prop} {f : Frame} {start start' : ℕ} (fidx : Fidx) (c : Core)
    (same : Known exact f.dset → start = start') :
    (c.indexStream f start { fidx with start := start }).1 =
        (c.indexStream f start' { fidx with start := start' }).1 ∧
      (c.indexStream f start { fidx with start := start }).2.2 =
        (c.indexStream f start' { fidx with start := start' }).2.2 ∧
      (exact → (c.indexStream f start { fidx with start := start }).2.1 =
        (c.indexStream f start' { fidx with start := start' }).2.1) := by
  by_cases ok : f.err = 0
  · rw [same (known_dset ok)]
    exact ⟨rfl, rfl, fun _ => rfl⟩
  · rw [indexStream_of_err ok, indexStream_of_err ok]
    exact ⟨rfl, rfl, fun he => by rw [same (Or.inl he)]⟩

/-- The frame is within bounds, or there is room for what is taken for its payload. -/
def Frame.Fits (f : Frame) (job : Job) : Prop := f.InBounds ∨ HasRoom (job.aio f.dset) f.paylen

theorem hasRoom_of_fits {exact : Prop} {f : Frame} {job : Job} {r : Recorder}
    (tracks : Tracks exact job r) (live : Live exact job) (fits : exact → f.Fits job)
    (hk : Kept exact f.dset) : HasRoom (job.aio f.dset) f.paylen := by
  have ready := (tracks f.dset).ready hk (live _ hk)
  by_cases ok : f.err = 0
  · exact hasRoom_of_ready ready (paylen_le_of_inBounds (inBounds_of_err ok))
  · rcases hk with he | hne
    · rcases fits he with hb | hr
      · exact hasRoom_of_ready ready (paylen_le_of_inBounds hb)
      · exact hr
    · exact absurd (dset_eq_bdat.2 ok) hne

/-- A tick record that is due is one of the tick index. -/
theorem tickDue_eq_some {f : Frame} {r : Recorder} {ds : Dset} {buf : List UInt8}
    (h : r.tickDue f = some (ds, buf)) :
    ds = .tidx ∧ ((r.core.count f).indexFrame f).2.2 = some buf := by
  obtain ⟨buf', hb, heq⟩ := Option.map_eq_some_iff.1 h
  obtain ⟨rfl, rfl⟩ := Prod.mk.inj heq
  exact ⟨rfl, hb⟩

/-- The handler on a frame that it records: either the job goes on, or it ends with a report, as it
is done or as something was lost. -/
theorem taskCapPktHn_spec {exact : Prop} {fuel : ℕ} (hf : 4 ≤ fuel) (env : Env) {f : Frame}
    {job : Job} {r : Recorder} (hcore : job.core.arrive f = r.core)
    (hrec : r.core.recording = true) (tracks : Tracks exact job r) (live : Live exact job)
    (fits : exact → f.Fits job) :
    ∃ res job', taskCapPktHn fuel env f job = some (res, job') ∧
      ((res = none ∧ (r.index f).2.2.2 = false ∧ job'.core = (r.record f).core ∧
          Tracks exact job' (r.record f) ∧ Live exact job') ∨
        ∃ report, res = some report ∧ Reports exact (r.record f) report ∧
          report.status = (r.record f).core.finalStatus env ∧
          ((∀ ds, report.lost ds = false) → (r.index f).2.2.2 = true)) := by
  have hdset := dset_ne_index f
  rw [taskCapPktHn_eq fuel env f job (by rw [hcore]; exact hrec), hcore]
  have tracks' : ∀ c, Tracks exact { job with core := c } r := fun _ => tracks
  -- the tick record
  obtain ⟨failed₁, job₁, h₁, hcore₁, tracks₁, same₁, -, lost₁, live₁⟩ :=
    queueDue_spec hf (tracks' ((r.core.count f).indexFrame f).1) (r.tickDue f) (fun ds buf h => by
        obtain ⟨rfl, hb⟩ := tickDue_eq_some h
        exact ⟨by decide, by rw [indexFrame_due hb]; decide⟩) (fun ds buf h => by
        obtain ⟨rfl, -⟩ := tickDue_eq_some h
        exact live .tidx (Or.inr (by decide)))
  have other₁ : ∀ ds, ds ≠ .tidx → job₁.aio ds = job.aio ds := fun ds hne =>
    same₁ ds fun buf h => hne (tickDue_eq_some h).1
  change Job.queueDue fuel (r.tickDue f) _ = _ at h₁
  unfold Recorder.tickDue at h₁
  rw [h₁, Option.bind_some]
  dsimp only
  -- the place of the frame in its data file
  rw [hcore₁]
  dsimp only
  have hstart : Known exact f.dset →
      (job₁.aio f.dset).position = (r.files f.dset).length := fun hk => by
    rw [other₁ _ hdset.2.2.1]
    exact position_eq_length (tracks f.dset) hk
  obtain ⟨hp₁, hp₂, hp₃⟩ := indexStream_start (f := f) ((r.core.count f).indexFrame f).2.1
    ((r.core.count f).indexFrame f).1 hstart
  generalize ((r.core.count f).indexFrame f).1.indexStream f (job₁.aio f.dset).position
    { ((r.core.count f).indexFrame f).2.1 with start := (job₁.aio f.dset).position } = p at *
  have hdue : p.2.2.1 = (r.index f).2.2.1 := congrArg Prod.fst hp₂
  have tracks₁' : Tracks exact { job₁ with core := p.1 } (r.appendDue (r.tickDue f)) := tracks₁
  -- the stream record
  obtain ⟨failed₂, job₂, h₂, hcore₂, tracks₂, same₂, stays₂, lost₂, live₂⟩ :=
    queueDue_spec hf tracks₁' (r.index f).2.2.1 (fun ds buf h => by
        obtain ⟨hds, hb⟩ := indexStream_due _ _ h
        exact ⟨by rcases hds with rfl | rfl <;> decide, by rw [hb]; decide⟩) (fun ds buf h => by
        obtain ⟨hds, -⟩ := indexStream_due _ _ h
        have hne : ds ≠ .tidx ∧ ds ≠ .bdat := by rcases hds with rfl | rfl <;> decide
        exact (congrArg Aiobuf.lost (other₁ ds hne.1)).trans (live ds (Or.inr hne.2)))
  have other₂ : ∀ ds, ds ≠ .tidx → ds ≠ .ridx → ds ≠ .midx → job₂.aio ds = job.aio ds :=
    fun ds ht hr hm => (same₂ ds fun buf h => by
      rcases (indexStream_due _ _ h).1 with rfl | rfl
      · exact hr rfl
      · exact hm rfl).trans (other₁ ds ht)
  rw [hdue, h₂, Option.bind_some]
  dsimp only
  -- the payload
  have same₂ := other₂ f.dset hdset.2.2.1 hdset.2.2.2 hdset.2.1
  obtain ⟨failed₃, b₃, h₃, tracks₃, stays₃, lost₃, hfailed₃⟩ := queue_spec hf tracks₂ f.dset f.payload
    f.payload (by rw [length_payload]; exact paylen_le f)
    (by rw [length_payload, same₂]; exact hasRoom_of_fits tracks live fits)
    (fun hk => (congrArg Aiobuf.lost same₂).trans (live _ hk)) fun _ => rfl
  rw [h₃, Option.bind_some]
  dsimp only
  -- the frame's record
  have ok₄ : Kept exact .fidx → ((job₂.extended f.dset f.payload b₃).aio .fidx).lost = false := by
    intro hk
    rw [extended_aio_of_ne _ _ _ hdset.1.symm]
    exact (congrArg Aiobuf.lost (other₂ .fidx (by decide) (by decide) (by decide))).trans
      (live _ hk)
  obtain ⟨failed₄, b₄, h₄, tracks₄, stays₄, lost₄, hfailed₄⟩ := queue_spec hf tracks₃ .fidx p.2.1.bytes
    (r.index f).2.1.bytes (by rw [length_fidx_bytes]; decide)
    (fun hk => hasRoom_of_ready
      ((tracks₃ .fidx).ready hk (ok₄ hk)) (by rw [length_fidx_bytes]; decide)) ok₄
    fun hk => by
      rcases hk with he | hk
      · rw [hp₃ he]
        rfl
      · exact absurd rfl hk.2
  rw [h₄, Option.bind_some]
  dsimp only
  have hcore₄ : ((job₂.extended f.dset f.payload b₃).extended .fidx p.2.1.bytes b₄).core =
      (r.record f).core := by
    rw [Recorder.record_core]
    exact hcore₂.trans hp₁
  replace tracks₄ := tracks_of_files (r.record_files f).symm tracks₄
  have hdone : p.2.2.2 = (r.index f).2.2.2 := congrArg Prod.snd hp₂
  have live₃ := live_extended f.payload b₃ fun hk : Kept exact f.dset =>
    (congrArg Aiobuf.lost same₂).trans (live _ hk)
  have live₄ := live_extended p.2.1.bytes b₄ ok₄
  rw [hdone]
  split_ifs with hend
  · obtain ⟨report, job', hfin, hrep, hstatus, hlost⟩ := finish_spec hf env hcore₄ tracks₄
    rw [hfin]
    refine ⟨_, _, rfl, Or.inr ⟨report, rfl, hrep, hstatus, fun clean => ?_⟩⟩
    -- a call that failed has lost something, and the report says so
    have unfailed : ∀ {failed : Bool}, (failed = true → ∃ ds,
        (((job₂.extended f.dset f.payload b₃).extended .fidx p.2.1.bytes b₄).aio ds).lost =
          true) → failed = false := by
      intro failed h
      rw [Bool.eq_false_iff]
      intro hfail
      obtain ⟨ds, hl⟩ := h hfail
      exact Bool.noConfusion ((clean ds).symm.trans (hlost ds hl))
    have hf₁ : failed₁ = false := unfailed fun hfail => by
      obtain ⟨ds, hl⟩ := lost₁ hfail
      exact ⟨ds, stays₄ ds (stays₃ ds (stays₂ ds hl))⟩
    have hf₂ : failed₂ = false := unfailed fun hfail => by
      obtain ⟨ds, hl⟩ := lost₂ hfail
      exact ⟨ds, stays₄ ds (stays₃ ds hl)⟩
    have hf₃ : failed₃ = false := unfailed fun hfail => by
      refine ⟨f.dset, stays₄ f.dset ?_⟩
      rw [extended_aio_self]
      exact lost₃ hfail
    have hf₄ : failed₄ = false := unfailed fun hfail => by
      refine ⟨.fidx, ?_⟩
      rw [extended_aio_self]
      exact lost₄ hfail
    rwa [hf₁, hf₂, hf₃, hf₄, Bool.false_or, Bool.or_false, Bool.or_false, Bool.or_false] at hend
  · simp only [Bool.or_eq_true, not_or, Bool.not_eq_true] at hend
    obtain ⟨⟨⟨⟨hf₁, hd⟩, hf₂⟩, hf₃⟩, hf₄⟩ := hend
    refine ⟨none, _, rfl, Or.inl ⟨rfl, hd, hcore₄, tracks₄, live₄.2 ⟨live₃.2
      ⟨live₂.2 ⟨live₁.2 ⟨live, hf₁⟩, hf₂⟩, fun hk => ?_⟩, fun hk => ?_⟩⟩⟩
    · exact (hfailed₃ hk).symm.trans hf₃
    · exact (hfailed₄ hk).symm.trans hf₄

end Tesd
