import Mathlib.Tactic.IntervalCases
import Tesd.FrameIndex

/-!
# Replaying a capture

`s_inject_from_fidx` of `netmap_tescap_tx.c` reads the frame index and the data files of a capture,
builds the frames again and injects them, from the first to the last and then once more from the
first on.

A call of the system that fails, and a signal, end the loop.  What has been injected until then is
what was injected before that turn, so `turn` is about calls that do not fail.
-/

namespace Tesd

open Slice LittleEndian Records

def DST_HW_ADDR : List UInt8 := [0xFF, 0xFF, 0xFF, 0xFF, 0xFF, 0xFF]

def SRC_HW_ADDR : List UInt8 := [0x5A, 0xCE, 0xBE, 0xB7, 0xB2, 0x91]

def FTYPE_TRACE_SGL : ℕ := 3
def FTYPE_TRACE_AVG : ℕ := 4
def FTYPE_TRACE_DP : ℕ := 5
def FTYPE_TRACE_DP_TR : ℕ := 6

namespace Tespkt

variable (pkt : Tespkt)

/-- `tespkt_set_len`. -/
def setLen (len : ℕ) : Tespkt := write pkt 14 (leBytes 2 len)

/-- `tespkt_set_fseq`. -/
def setFseq (seq : ℕ) : Tespkt := write pkt 16 (leBytes 2 seq)

/-- `tespkt_set_pseq`. -/
def setPseq (seq : ℕ) : Tespkt := write pkt 18 (leBytes 2 seq)

def isTraceSgl : Bool := isTrace pkt && etypeTR pkt == 0

def isTraceDptr : Bool := isTrace pkt && etypeTR pkt == 3

end Tespkt

namespace Fidx

/-- `plen`, a `uint16_t`. -/
def plen (q : Fidx) : ℕ := q.length % 2 ^ 16

/-- The file with the payload, unless the frame is a bad one. -/
def datfd (q : Fidx) : Option Dset :=
  if q.pt < FTYPE_TICK then some .edat
  else if q.pt = FTYPE_TICK then some .tdat
  else if q.pt = FTYPE_MCA then some .mdat
  else none

/-- The ethernet type. -/
def etherType (q : Fidx) : List UInt8 := [0x88, if q.pt = FTYPE_MCA then 0xB6 else 0xB5]

/-- The event type with the fields `TR`, `PKT` and `T`; everything else in it is zero. -/
def etype (q : Fidx) : List UInt8 :=
  if q.pt < FTYPE_TRACE_SGL then [0, UInt8.ofNat (4 * q.pt)]
  else if q.pt < FTYPE_TICK then [UInt8.ofNat (q.pt - 3), UInt8.ofNat (4 * TESPKT_TYPE_TRACE)]
  else if q.pt = FTYPE_TICK then [0, 2]
  else [0, 0]

/-- The jump in a sequence: one frame is taken to be missing if the record says that some are. -/
def ahead (q : Fidx) : ℕ := 1 + q.seq.toNat

end Fidx

/-- `struct s_stats_t` of the replayer. -/
structure TxStats where
  pkts : ℕ
  mcas : ℕ
  ticks : ℕ
  peaks : ℕ
  areas : ℕ
  pulses : ℕ
  traces : ℕ
  traceSgls : ℕ
  traceAvgs : ℕ
  traceDps : ℕ
  traceDpTrs : ℕ
  missed : ℕ
  invalid : ℕ
  prevFseq : ℕ
  prevPseq : ℕ
  mcaN : ℕ
  traceN : ℕ
  deriving DecidableEq, Repr

namespace TxStats

def zero : TxStats := ⟨0, 0, 0, 0, 0, 0, 0, 0, 0, 0, 0, 0, 0, 0, 0, 0, 0⟩

/-- A frame of a stream: its number in the stream, a `uint16_t`. -/
def inStream (pkt : Tespkt) (n : ℕ) : ℕ := ((if pkt.isHeader then 0 else n) + 1) % 2 ^ 16

/-- The counters of the kinds of frames. -/
def countKind (pkt : Tespkt) (st : TxStats) : TxStats :=
  if pkt.isMca then { st with mcas := st.mcas + 1, mcaN := inStream pkt st.mcaN }
  else if pkt.isTick then { st with ticks := st.ticks + 1 }
  else if pkt.isPeak then { st with peaks := st.peaks + 1 }
  else if pkt.isArea then { st with areas := st.areas + 1 }
  else if pkt.isPulse then { st with pulses := st.pulses + 1 }
  else if pkt.isTrace then
    let st := { st with traces := st.traces + 1 }
    if pkt.isTraceDp then { st with traceDps := st.traceDps + 1 }
    else
      let st := { st with traceN := inStream pkt st.traceN }
      if pkt.isTraceSgl then { st with traceSgls := st.traceSgls + 1 }
      else if pkt.isTraceAvg then { st with traceAvgs := st.traceAvgs + 1 }
      else if pkt.isTraceDptr then { st with traceDpTrs := st.traceDpTrs + 1 }
      else st
  else st

/-- `s_update_stats`. -/
def update (pkt : Tespkt) (st : TxStats) : TxStats :=
  let curFseq := pkt.fseq
  let st := { st with
    missed :=
      if st.pkts > 1 then st.missed + (((curFseq : ℤ) - st.prevFseq - 1) % 2 ^ 16).toNat
      else st.missed
    prevFseq := curFseq
    prevPseq := pkt.pseq }
  countKind pkt (if pkt.isValid ≠ 0 then { st with invalid := st.invalid + 1 } else st)

end TxStats

/-- The variables of `s_inject_from_fidx`, with the position in the index file and the frames that
were injected. -/
structure Replay where
  pos : ℕ
  looped : ℕ
  stats : TxStats
  pkt : Tespkt
  injected : List (List UInt8)

namespace Replay

variable (files : Dset → List UInt8)

/-- `pkt` is allocated once, and as much of it is zeroed as a `tespkt` takes. -/
def start (mem : ℕ → UInt8) : Replay := ⟨0, 0, .zero, write mem 0 (List.replicate 32 0), []⟩

/-- The headers of the frame, but for the numbers, in the memory of the last one. -/
def build (q : Fidx) (pkt : Tespkt) : Tespkt :=
  let pkt := pkt.setLen (TESPKT_HDR_LEN + q.plen)
  let pkt := write (write pkt 0 DST_HW_ADDR) 6 SRC_HW_ADDR
  if q.datfd = none then pkt
  else write (write (write pkt 12 q.etherType) 20 (leBytes 2 q.esize)) 22 q.etype

/-- The rest of a turn, once a record was read.  The assertion is that of `plen`; a position is
sought in an `int`. -/
def send (q : Fidx) (t : Replay) : Option Replay :=
  if q.plen > MTU - TESPKT_HDR_LEN then none
  else
    let pkt := build q t.pkt
    match q.datfd with
    | none => some { t with pkt := pkt }
    | some ds =>
      let fseq := if t.stats.pkts = 1 then 0 else (t.stats.prevFseq + q.ahead) % 2 ^ 16
      let pkt := pkt.setFseq fseq
      let long := pkt.isMca || (pkt.isTrace && !pkt.isTraceDp)
      let pseq := if q.hdr || !long then 0 else (t.stats.prevPseq + q.ahead) % 2 ^ 16
      let pkt := pkt.setPseq pseq
      let data := ((files ds).drop q.start).take q.plen
      if q.start ≥ 2 ^ 31 ∨ data.length ≠ q.plen then none
      else
        let pkt := write pkt TESPKT_HDR_LEN data
        let t := { t with
          stats := { t.stats with prevPseq := pseq }
          pkt := pkt
          injected := t.injected ++ [slice pkt 0 (q.plen + TESPKT_HDR_LEN)] }
        -- statistics, only first time through the loop
        some (if t.looped > 0 then t else { t with stats := t.stats.update pkt })

/-- The next record was read at this position. -/
def next (pos : ℕ) (t : Replay) : Replay :=
  { t with
    pos := pos + FIDX_LEN
    stats := { t.stats with pkts := t.stats.pkts + 1 } }

/-- A turn of the loop, unless the loop is left in it or the assertion fails. -/
def turn (skip : ℕ) (t : Replay) : Option Replay :=
  if t.stats.pkts = 0 ∧ skip ≥ 2 ^ 31 then none
  else
    let pos := if t.stats.pkts = 0 then skip else t.pos
    let record := ((files .fidx).drop pos).take FIDX_LEN
    if record = [] then
      some { t with pos := pos, looped := t.looped + 1, stats := { t.stats with pkts := 0 } }
    else if record.length ≠ FIDX_LEN then none
    else send files (.read record) (t.next pos)

/-- So many turns of the loop. -/
def turns (skip numLoops : ℕ) : ℕ → Replay → Option Replay
  | 0, t => some t
  | n + 1, t =>
    if t.looped = numLoops then none else (t.turn files skip).bind (turns skip numLoops n)

end Replay

/-! ## The frame that is built for a record -/

namespace Fidx

/-- The frame is not a bad one. -/
def good (q : Fidx) : Bool := q.datfd.isSome

/-- The frame is part of a stream of frames. -/
def long (q : Fidx) : Bool :=
  q.pt == FTYPE_MCA ||
    (decide (FTYPE_TRACE_SGL ≤ q.pt) && decide (q.pt < FTYPE_TICK) && q.pt != FTYPE_TRACE_DP)

/-- The headers of the frame with these numbers. -/
def headers (q : Fidx) (fseq pseq : ℕ) : List UInt8 :=
  DST_HW_ADDR ++ SRC_HW_ADDR ++ q.etherType ++ leBytes 2 (TESPKT_HDR_LEN + q.plen) ++
    leBytes 2 fseq ++ leBytes 2 pseq ++ leBytes 2 q.esize ++ q.etype

/-- The bytes of a frame that tell its kind are those that belong to the record. -/
structure Typed (q : Fidx) (pkt : Tespkt) : Prop where
  ether : [pkt 12, pkt 13] = q.etherType
  etype : [pkt 22, pkt 23] = q.etype

theorem etype_eq (q : Fidx) : ∃ x y, q.etype = [x, y] := by
  unfold etype
  split_ifs <;> exact ⟨_, _, rfl⟩

theorem length_headers (q : Fidx) (fseq pseq : ℕ) :
    (q.headers fseq pseq).length = TESPKT_HDR_LEN := by
  obtain ⟨x, y, h⟩ := q.etype_eq
  rw [headers, h]
  rfl

theorem good_iff {q : Fidx} : q.good = true ↔ q.pt < 9 := by
  unfold good datfd FTYPE_TICK FTYPE_MCA
  split_ifs <;> simp <;> omega

section Typed

variable {q : Fidx} {pkt : Tespkt} (good : q.good = true) (typed : q.Typed pkt)

include good typed

theorem typed_fields :
    pkt.isMca = (q.pt == FTYPE_MCA) ∧ pkt.isEvent = (q.pt != FTYPE_MCA) ∧
      pkt.etypeT = (if q.pt = FTYPE_TICK then 1 else 0) ∧
      pkt.etypePKT = (if q.pt < FTYPE_TRACE_SGL then q.pt else if q.pt < FTYPE_TICK then
        TESPKT_TYPE_TRACE else 0) ∧
      pkt.etypeTR = if FTYPE_TRACE_SGL ≤ q.pt ∧ q.pt < FTYPE_TICK then q.pt - 3 else 0 := by
  have hlt := good_iff.1 good
  obtain ⟨hether, hetype⟩ := typed
  unfold etherType at hether
  unfold Fidx.etype at hetype
  simp only [List.cons.injEq, and_true] at hether
  unfold Tespkt.isMca Tespkt.isEvent Tespkt.etherType Tespkt.etypeT Tespkt.etypePKT Tespkt.etypeTR
  rw [hether.1, hether.2]
  generalize q.pt = pt at *
  interval_cases pt <;> simp [FTYPE_TRACE_SGL, FTYPE_TICK, FTYPE_MCA, TESPKT_TYPE_TRACE] at hetype ⊢ <;>
    rw [hetype.1, hetype.2] <;> decide

theorem isTick_of_typed : pkt.isTick = (q.pt == FTYPE_TICK) := by
  have hlt := good_iff.1 good
  obtain ⟨-, hevent, ht, -, -⟩ := typed_fields good typed
  rw [Tespkt.isTick, hevent, ht]
  generalize q.pt = pt at *
  interval_cases pt <;> rfl

theorem isTrace_of_typed :
    pkt.isTrace = (decide (FTYPE_TRACE_SGL ≤ q.pt) && decide (q.pt < FTYPE_TICK)) := by
  have hlt := good_iff.1 good
  obtain ⟨-, hevent, ht, hpkt, -⟩ := typed_fields good typed
  rw [Tespkt.isTrace, hevent, ht, hpkt]
  generalize q.pt = pt at *
  interval_cases pt <;> rfl

theorem isTraceDp_of_typed : pkt.isTraceDp = (q.pt == FTYPE_TRACE_DP) := by
  have hlt := good_iff.1 good
  obtain ⟨-, hevent, ht, hpkt, htr⟩ := typed_fields good typed
  rw [Tespkt.isTraceDp, hevent, ht, hpkt, htr]
  generalize q.pt = pt at *
  interval_cases pt <;> rfl

theorem kinds_of_typed :
    pkt.isPeak = (q.pt == TESPKT_TYPE_PEAK) ∧ pkt.isArea = (q.pt == TESPKT_TYPE_AREA) ∧
      pkt.isPulse = (q.pt == TESPKT_TYPE_PULSE) ∧ pkt.isTraceSgl = (q.pt == FTYPE_TRACE_SGL) ∧
      pkt.isTraceAvg = (q.pt == FTYPE_TRACE_AVG) ∧
      pkt.isTraceDptr = (q.pt == FTYPE_TRACE_DP_TR) := by
  have hlt := good_iff.1 good
  obtain ⟨-, hevent, ht, hpkt, htr⟩ := typed_fields good typed
  unfold Tespkt.isPeak Tespkt.isArea Tespkt.isPulse Tespkt.isTraceSgl Tespkt.isTraceAvg
    Tespkt.isTraceDptr Tespkt.isTrace
  rw [hevent, ht, hpkt, htr]
  generalize q.pt = pt at *
  interval_cases pt <;> decide

theorem long_of_typed : (pkt.isMca || (pkt.isTrace && !pkt.isTraceDp)) = q.long := by
  rw [(typed_fields good typed).1, isTrace_of_typed good typed, isTraceDp_of_typed good typed]
  rfl

end Typed

end Fidx

namespace Replay

theorem datfd_ne {q : Fidx} (good : q.good = true) : q.datfd ≠ none := by
  intro h
  rw [Fidx.good, h] at good
  cases good

theorem build_typed {q : Fidx} (good : q.good = true) (fseq : ℕ) (pkt : Tespkt) :
    q.Typed ((build q pkt).setFseq fseq) := by
  obtain ⟨x, y, hetype⟩ := q.etype_eq
  unfold build
  dsimp only
  rw [if_neg (datfd_ne good)]
  refine ⟨rfl, ?_⟩
  rw [hetype]
  rfl

theorem build_headers {q : Fidx} (good : q.good = true) (fseq pseq : ℕ) (pkt : Tespkt) :
    slice (((build q pkt).setFseq fseq).setPseq pseq) 0 TESPKT_HDR_LEN = q.headers fseq pseq := by
  obtain ⟨x, y, hetype⟩ := q.etype_eq
  unfold build Fidx.headers
  dsimp only
  rw [if_neg (datfd_ne good), hetype]
  rfl

theorem fields_of_headers {q : Fidx} {fseq pseq : ℕ} {pkt : Tespkt}
    (h : slice pkt 0 TESPKT_HDR_LEN = q.headers fseq pseq) :
    pkt.flen = (TESPKT_HDR_LEN + q.plen) % 2 ^ 16 ∧ pkt.fseq = fseq % 2 ^ 16 ∧
      pkt.pseq = pseq % 2 ^ 16 ∧ pkt.esize = q.esize % 2 ^ 16 ∧ q.Typed pkt := by
  obtain ⟨x, y, hetype⟩ := q.etype_eq
  unfold Fidx.headers at h
  rw [hetype] at h
  have hether : [pkt 12, pkt 13] = q.etherType := congrArg (fun l => (l.drop 12).take 2) h
  have hlen : slice pkt 14 2 = leBytes 2 (TESPKT_HDR_LEN + q.plen) :=
    congrArg (fun l => (l.drop 14).take 2) h
  have hfseq : slice pkt 16 2 = leBytes 2 fseq := congrArg (fun l => (l.drop 16).take 2) h
  have hpseq : slice pkt 18 2 = leBytes 2 pseq := congrArg (fun l => (l.drop 18).take 2) h
  have hesize : slice pkt 20 2 = leBytes 2 q.esize := congrArg (fun l => (l.drop 20).take 2) h
  have hetype' : [pkt 22, pkt 23] = [x, y] := congrArg (fun l => (l.drop 22).take 2) h
  unfold Tespkt.flen Tespkt.fseq Tespkt.pseq Tespkt.esize Tespkt.u16
  rw [hlen, hfseq, hpseq, hesize, ofLe_leBytes, ofLe_leBytes, ofLe_leBytes, ofLe_leBytes]
  exact ⟨rfl, rfl, rfl, rfl, hether, hetype'.trans hetype.symm⟩

end Replay

/-! ## One turn -/

namespace TxStats

theorem countKind_numbers (pkt : Tespkt) (st : TxStats) :
    (countKind pkt st).pkts = st.pkts ∧ (countKind pkt st).prevFseq = st.prevFseq ∧
      (countKind pkt st).prevPseq = st.prevPseq ∧ (countKind pkt st).missed = st.missed := by
  have same : st.pkts = st.pkts ∧ st.prevFseq = st.prevFseq ∧ st.prevPseq = st.prevPseq ∧
      st.missed = st.missed := ⟨rfl, rfl, rfl, rfl⟩
  unfold countKind
  cases pkt.isMca
  case true => exact same
  cases pkt.isTick
  case true => exact same
  cases pkt.isPeak
  case true => exact same
  cases pkt.isArea
  case true => exact same
  cases pkt.isPulse
  case true => exact same
  cases pkt.isTrace
  case false => exact same
  cases pkt.isTraceDp
  case true => exact same
  cases pkt.isTraceSgl
  case true => exact same
  cases pkt.isTraceAvg
  case true => exact same
  cases pkt.isTraceDptr <;> exact same

theorem update_numbers (pkt : Tespkt) (st : TxStats) :
    (update pkt st).pkts = st.pkts ∧ (update pkt st).prevFseq = pkt.fseq ∧
      (update pkt st).prevPseq = pkt.pseq := by
  unfold update
  obtain ⟨h₁, h₂, h₃, -⟩ := countKind_numbers pkt (if pkt.isValid ≠ 0 then _ else _)
  refine ⟨h₁.trans ?_, h₂.trans ?_, h₃.trans ?_⟩ <;> split <;> rfl

end TxStats

namespace Fidx

/-- The number within a stream starts again. -/
def resets (q : Fidx) : Bool := q.hdr || !q.long

/-- The number within a stream, after that of the last frame. -/
def nextPseq (q : Fidx) (prev : ℕ) : ℕ := if q.resets then 0 else (prev + q.ahead) % 2 ^ 16

/-- The payload that the record names. -/
def payload (files : Dset → List UInt8) (q : Fidx) : List UInt8 :=
  match q.datfd with
  | none => []
  | some ds => ((files ds).drop q.start).take q.plen

/-- The frame that is injected for the record, with these numbers. -/
def image (files : Dset → List UInt8) (q : Fidx) (fseq pseq : ℕ) : List UInt8 :=
  q.headers fseq pseq ++ q.payload files

/-- The payload is not too long, and is in its file in full and where it can be sought. -/
structure Readable (files : Dset → List UInt8) (q : Fidx) : Prop where
  short : q.plen ≤ MTU - TESPKT_HDR_LEN
  there : ∀ ds, q.datfd = some ds → q.start < 2 ^ 31 ∧ q.start + q.plen ≤ (files ds).length

theorem nextPseq_lt (q : Fidx) (prev : ℕ) : q.nextPseq prev < 2 ^ 16 := by
  unfold nextPseq
  split_ifs <;> omega

end Fidx

namespace Replay

variable {files : Dset → List UInt8} {q : Fidx} {t : Replay}

theorem send_of_bad (readable : q.Readable files) (bad : q.good = false) :
    ∃ pkt, send files q t = some { t with pkt := pkt } := by
  have hnone : q.datfd = none := by
    rwa [Fidx.good, Option.isSome_eq_false_iff, Option.isNone_iff_eq_none] at bad
  refine ⟨build q t.pkt, ?_⟩
  unfold send
  dsimp only
  rw [if_neg (Nat.not_lt.2 readable.short), hnone]

/-- What is left of a turn in which a frame is injected. -/
structure Sent (files : Dset → List UInt8) (q : Fidx) (t t' : Replay) (fseq pseq : ℕ) : Prop where
  pos : t'.pos = t.pos
  looped : t'.looped = t.looped
  pkts : t'.stats.pkts = t.stats.pkts
  injected : t'.injected = t.injected ++ [q.image files fseq pseq]
  prevFseq : t'.stats.prevFseq = if t.looped = 0 then fseq else t.stats.prevFseq
  prevPseq : t'.stats.prevPseq = pseq
  counted : t.looped = 0 → ∃ pkt, q.Typed pkt ∧ pkt.fseq = fseq ∧
    t'.stats = TxStats.update pkt { t.stats with prevPseq := pseq }

/-- The memory of the frame once its payload was read into it. -/
theorem slice_build {q : Fidx} (good : q.good = true) (fseq pseq : ℕ) (pkt : Tespkt)
    {data : List UInt8} (len : data.length = q.plen) :
    slice (write (((build q pkt).setFseq fseq).setPseq pseq) TESPKT_HDR_LEN data) 0
        (q.plen + TESPKT_HDR_LEN) = q.headers fseq pseq ++ data ∧
      slice (write (((build q pkt).setFseq fseq).setPseq pseq) TESPKT_HDR_LEN data) 0
        TESPKT_HDR_LEN = q.headers fseq pseq := by
  constructor
  · rw [← len, Nat.add_comm, slice_write, build_headers good]
  · rw [← build_headers good fseq pseq pkt]
    refine slice_congr fun i _ hi => ?_
    rw [write, if_neg (by omega)]

theorem send_of_good (readable : q.Readable files) (good : q.good = true) :
    ∃ t', send files q t = some t' ∧ Sent files q t t'
      (if t.stats.pkts = 1 then 0 else (t.stats.prevFseq + q.ahead) % 2 ^ 16)
      (q.nextPseq t.stats.prevPseq) := by
  obtain ⟨ds, hds⟩ := Option.isSome_iff_exists.1 good
  obtain ⟨hstart, hend⟩ := readable.there ds hds
  have hpay : ((files ds).drop q.start).take q.plen = q.payload files := by rw [Fidx.payload, hds]
  have hlen : (q.payload files).length = q.plen := by
    rw [← hpay, List.length_take, List.length_drop]
    omega
  unfold send
  dsimp only
  rw [if_neg (Nat.not_lt.2 readable.short), hds]
  dsimp only
  rw [hpay, if_neg (by omega), Fidx.long_of_typed good (build_typed good _ _)]
  refine ⟨_, rfl, ?_⟩
  generalize hfseq : (if t.stats.pkts = 1 then 0 else (t.stats.prevFseq + q.ahead) % 2 ^ 16) = fseq
  rw [← Fidx.resets, ← Fidx.nextPseq]
  generalize hpseq : q.nextPseq t.stats.prevPseq = pseq
  obtain ⟨himage, hheaders⟩ := slice_build good fseq pseq t.pkt hlen
  obtain ⟨-, hf, hp, -, typed⟩ := fields_of_headers hheaders
  have hflt : fseq < 2 ^ 16 := by
    rw [← hfseq]
    split_ifs <;> omega
  rw [Nat.mod_eq_of_lt hflt] at hf
  rw [Nat.mod_eq_of_lt (hpseq ▸ q.nextPseq_lt _)] at hp
  rw [himage]
  generalize write (((build q t.pkt).setFseq fseq).setPseq pseq) TESPKT_HDR_LEN
    (q.payload files) = pkt at hf hp typed ⊢
  by_cases hloop : t.looped = 0
  · obtain ⟨h₁, h₂, h₃⟩ := TxStats.update_numbers pkt { t.stats with prevPseq := pseq }
    rw [if_neg (by omega)]
    exact ⟨rfl, rfl, h₁, rfl, by rw [if_pos hloop]; exact h₂.trans hf, h₃.trans hp,
      fun _ => ⟨pkt, typed, hf, rfl⟩⟩
  · rw [if_pos (Nat.pos_of_ne_zero hloop)]
    exact ⟨rfl, rfl, rfl, rfl, by rw [if_neg hloop], rfl, fun h => absurd h hloop⟩

end Replay

/-! ## The statistics -/

/-- The number of the last frame of the first pass, after these records. -/
def fseqAfter (qs : List Fidx) : ℕ := ((qs.tail.filter Fidx.good).map Fidx.ahead).sum % 2 ^ 16

/-- The records with this type. -/
def countOf (pt : ℕ) (qs : List Fidx) : ℕ := qs.countP fun q => q.pt == pt

namespace TxStats

/-- The statistics are those of the records. -/
structure Counted (qs : List Fidx) (st : TxStats) : Prop where
  mcas : st.mcas = countOf FTYPE_MCA qs
  ticks : st.ticks = countOf FTYPE_TICK qs
  peaks : st.peaks = countOf TESPKT_TYPE_PEAK qs
  areas : st.areas = countOf TESPKT_TYPE_AREA qs
  pulses : st.pulses = countOf TESPKT_TYPE_PULSE qs
  traceSgls : st.traceSgls = countOf FTYPE_TRACE_SGL qs
  traceAvgs : st.traceAvgs = countOf FTYPE_TRACE_AVG qs
  traceDps : st.traceDps = countOf FTYPE_TRACE_DP qs
  traceDpTrs : st.traceDpTrs = countOf FTYPE_TRACE_DP_TR qs
  traces : st.traces = st.traceSgls + st.traceAvgs + st.traceDps + st.traceDpTrs
  missed : st.missed = ((qs.tail.filter Fidx.good).map fun q => q.seq.toNat).sum

theorem countOf_concat (pt : ℕ) (qs : List Fidx) (q : Fidx) :
    countOf pt (qs ++ [q]) = countOf pt qs + if q.pt = pt then 1 else 0 := by
  unfold countOf
  rw [List.countP_append, List.countP_singleton]
  simp

/-- A frame counts as what its record says that it is. -/
theorem countKind_of_typed {q : Fidx} {pkt : Tespkt} (good : q.good = true) (typed : q.Typed pkt)
    (st : TxStats) :
    (countKind pkt st).mcas = st.mcas + (if q.pt = FTYPE_MCA then 1 else 0) ∧
    (countKind pkt st).ticks = st.ticks + (if q.pt = FTYPE_TICK then 1 else 0) ∧
    (countKind pkt st).peaks = st.peaks + (if q.pt = TESPKT_TYPE_PEAK then 1 else 0) ∧
    (countKind pkt st).areas = st.areas + (if q.pt = TESPKT_TYPE_AREA then 1 else 0) ∧
    (countKind pkt st).pulses = st.pulses + (if q.pt = TESPKT_TYPE_PULSE then 1 else 0) ∧
    (countKind pkt st).traceSgls = st.traceSgls + (if q.pt = FTYPE_TRACE_SGL then 1 else 0) ∧
    (countKind pkt st).traceAvgs = st.traceAvgs + (if q.pt = FTYPE_TRACE_AVG then 1 else 0) ∧
    (countKind pkt st).traceDps = st.traceDps + (if q.pt = FTYPE_TRACE_DP then 1 else 0) ∧
    (countKind pkt st).traceDpTrs = st.traceDpTrs + (if q.pt = FTYPE_TRACE_DP_TR then 1 else 0) ∧
    (countKind pkt st).traces =
      st.traces + (if FTYPE_TRACE_SGL ≤ q.pt ∧ q.pt < FTYPE_TICK then 1 else 0) := by
  have hlt := Fidx.good_iff.1 good
  obtain ⟨hpeak, harea, hpulse, hsgl, havg, hdptr⟩ := Fidx.kinds_of_typed good typed
  unfold countKind
  rw [(Fidx.typed_fields good typed).1, Fidx.isTick_of_typed good typed, hpeak, harea, hpulse,
    Fidx.isTrace_of_typed good typed, Fidx.isTraceDp_of_typed good typed, hsgl, havg, hdptr]
  generalize q.pt = pt at *
  interval_cases pt <;> exact ⟨rfl, rfl, rfl, rfl, rfl, rfl, rfl, rfl, rfl, rfl⟩

/-- The frames that the records say are missing, after the first record. -/
theorem missed_concat (qs : List Fidx) (q : Fidx) :
    (((qs ++ [q]).tail.filter Fidx.good).map fun q => q.seq.toNat).sum =
      ((qs.tail.filter Fidx.good).map fun q => q.seq.toNat).sum +
        if qs ≠ [] ∧ q.good = true then q.seq.toNat else 0 := by
  by_cases hne : qs = []
  · subst hne
    rfl
  · rw [List.tail_append_of_ne_nil hne, List.filter_append, List.map_append, List.sum_append]
    cases hgood : q.good <;> simp [hgood, hne]

theorem counted_zero : Counted [] zero := ⟨rfl, rfl, rfl, rfl, rfl, rfl, rfl, rfl, rfl, rfl, rfl⟩

/-- Only the counters are compared. -/
theorem Counted.of_pkts {qs : List Fidx} {st : TxStats} (h : Counted qs st) (pkts : ℕ)
    {prevPseq : ℕ} : Counted qs { st with pkts := pkts, prevPseq := prevPseq } :=
  ⟨h.mcas, h.ticks, h.peaks, h.areas, h.pulses, h.traceSgls, h.traceAvgs, h.traceDps, h.traceDpTrs,
    h.traces, h.missed⟩

theorem Counted.bad {qs : List Fidx} {st : TxStats} {q : Fidx} (h : Counted qs st)
    (bad : q.good = false) : Counted (qs ++ [q]) st := by
  have hpt : ∀ pt, pt < 9 → countOf pt (qs ++ [q]) = countOf pt qs := by
    intro pt hpt
    have hne : q.pt ≠ pt := by
      rintro rfl
      rw [Fidx.good_iff.2 hpt] at bad
      cases bad
    rw [countOf_concat, if_neg hne, Nat.add_zero]
  have hmissed := missed_concat qs q
  rw [if_neg (by simp [bad]), Nat.add_zero] at hmissed
  exact
    { mcas := h.mcas.trans (hpt _ (by decide)).symm
      ticks := h.ticks.trans (hpt _ (by decide)).symm
      peaks := h.peaks.trans (hpt _ (by decide)).symm
      areas := h.areas.trans (hpt _ (by decide)).symm
      pulses := h.pulses.trans (hpt _ (by decide)).symm
      traceSgls := h.traceSgls.trans (hpt _ (by decide)).symm
      traceAvgs := h.traceAvgs.trans (hpt _ (by decide)).symm
      traceDps := h.traceDps.trans (hpt _ (by decide)).symm
      traceDpTrs := h.traceDpTrs.trans (hpt _ (by decide)).symm
      traces := h.traces
      missed := h.missed.trans hmissed.symm }

theorem Counted.good {qs : List Fidx} {st : TxStats} {q : Fidx} {pkt : Tespkt}
    (h : Counted qs st) (good : q.good = true) (typed : q.Typed pkt)
    (hpkts : st.pkts = qs.length + 1) (hprev : st.prevFseq = fseqAfter qs)
    (hfseq : qs ≠ [] → pkt.fseq = (fseqAfter qs + q.ahead) % 2 ^ 16) :
    Counted (qs ++ [q]) (update pkt st) := by
  have hmissed : (if st.pkts > 1 then
      st.missed + (((pkt.fseq : ℤ) - st.prevFseq - 1) % 2 ^ 16).toNat else st.missed) =
        st.missed + if qs ≠ [] ∧ q.good = true then q.seq.toNat else 0 := by
    rw [hpkts, hprev]
    by_cases hne : qs = []
    · simp [hne]
    · have hpos := List.length_pos_iff.2 hne
      have hlt : fseqAfter qs < 2 ^ 16 := Nat.mod_lt _ (by decide)
      rw [if_pos (by omega), if_pos ⟨hne, good⟩, hfseq hne]
      unfold Fidx.ahead
      cases q.seq <;> simp only [Bool.toNat_false, Bool.toNat_true] <;> omega
  unfold update
  dsimp only
  rw [hmissed]
  generalize hst : (if pkt.isValid ≠ 0 then _ else _) = st'
  have hsame : st'.mcas = st.mcas ∧ st'.ticks = st.ticks ∧ st'.peaks = st.peaks ∧
      st'.areas = st.areas ∧ st'.pulses = st.pulses ∧ st'.traceSgls = st.traceSgls ∧
      st'.traceAvgs = st.traceAvgs ∧ st'.traceDps = st.traceDps ∧
      st'.traceDpTrs = st.traceDpTrs ∧ st'.traces = st.traces ∧
      st'.missed = st.missed + if qs ≠ [] ∧ q.good = true then q.seq.toNat else 0 := by
    rw [← hst]
    split <;> exact ⟨rfl, rfl, rfl, rfl, rfl, rfl, rfl, rfl, rfl, rfl, rfl⟩
  obtain ⟨h₁, h₂, h₃, h₄, h₅, h₆, h₇, h₈, h₉, h₁₀, h₁₁⟩ := hsame
  obtain ⟨g₁, g₂, g₃, g₄, g₅, g₆, g₇, g₈, g₉, g₁₀⟩ := countKind_of_typed good typed st'
  refine ⟨?_, ?_, ?_, ?_, ?_, ?_, ?_, ?_, ?_, ?_, ?_⟩
  · rw [g₁, h₁, countOf_concat, h.mcas]
  · rw [g₂, h₂, countOf_concat, h.ticks]
  · rw [g₃, h₃, countOf_concat, h.peaks]
  · rw [g₄, h₄, countOf_concat, h.areas]
  · rw [g₅, h₅, countOf_concat, h.pulses]
  · rw [g₆, h₆, countOf_concat, h.traceSgls]
  · rw [g₇, h₇, countOf_concat, h.traceAvgs]
  · rw [g₈, h₈, countOf_concat, h.traceDps]
  · rw [g₉, h₉, countOf_concat, h.traceDpTrs]
  · rw [g₁₀, h₁₀, h.traces, g₆, g₇, g₈, g₉, h₆, h₇, h₈, h₉]
    unfold FTYPE_TRACE_SGL FTYPE_TRACE_AVG FTYPE_TRACE_DP FTYPE_TRACE_DP_TR FTYPE_TICK
    split_ifs <;> omega
  · rw [(countKind_numbers pkt st').2.2.2, h₁₁, missed_concat, h.missed]

end TxStats

/-! ## The whole replay -/

/-- The number within a stream of the last frame of these records, after that of the last frame
before them. -/
def pseqAfter (qs : List Fidx) (prev : ℕ) : ℕ :=
  (qs.filter Fidx.good).foldl (fun prev q => q.nextPseq prev) prev

/-- The number within a stream of the last frame before a pass. -/
def pseqBefore (qs : List Fidx) : ℕ → ℕ
  | 0 => 0
  | i + 1 => pseqAfter qs (pseqBefore qs i)

/-- The number that a frame gets in a pass.  The numbers go on only in the first one: in every later
one a frame is numbered as if it were the next one after the first pass. -/
def fseqIn (qs : List Fidx) (i j : ℕ) (q : Fidx) : ℕ :=
  if j = 0 then 0 else if i = 0 then fseqAfter (qs.take (j + 1)) else (fseqAfter qs + q.ahead) % 2 ^ 16

/-- What is injected for a record in a pass. -/
def sentFor (files : Dset → List UInt8) (qs : List Fidx) (i j : ℕ) : List (List UInt8) :=
  match qs[j]? with
  | none => []
  | some q =>
    if q.good then
      [q.image files (fseqIn qs i j q) (pseqAfter (qs.take (j + 1)) (pseqBefore qs i))]
    else []

/-- What is injected for the first `k` records in a pass. -/
def sentIn (files : Dset → List UInt8) (qs : List Fidx) (i k : ℕ) : List (List UInt8) :=
  (List.range k).flatMap (sentFor files qs i)

theorem sentIn_succ (files : Dset → List UInt8) (qs : List Fidx) (i k : ℕ) :
    sentIn files qs i (k + 1) = sentIn files qs i k ++ sentFor files qs i k := by
  rw [sentIn, List.range_succ, List.flatMap_append, List.flatMap_singleton, sentIn]

namespace Replay

theorem fseqAfter_concat {qs : List Fidx} (q : Fidx) (ne : qs ≠ []) :
    fseqAfter (qs ++ [q]) = if q.good then (fseqAfter qs + q.ahead) % 2 ^ 16 else fseqAfter qs := by
  unfold fseqAfter
  rw [List.tail_append_of_ne_nil ne, List.filter_append, List.map_append, List.sum_append]
  cases hgood : q.good with
  | true => simp [hgood]
  | false => simp [hgood]

theorem pseqAfter_concat (qs : List Fidx) (q : Fidx) (prev : ℕ) :
    pseqAfter (qs ++ [q]) prev =
      if q.good then q.nextPseq (pseqAfter qs prev) else pseqAfter qs prev := by
  unfold pseqAfter
  rw [List.filter_append, List.foldl_append]
  cases hgood : q.good with
  | true => simp [hgood]
  | false => simp [hgood]

/-- The replayer after `k` records of pass `i`. -/
structure At (files : Dset → List UInt8) (qs : List Fidx) (i k : ℕ) (t : Replay) : Prop where
  looped : t.looped = i
  pkts : t.stats.pkts = k
  pos : k ≠ 0 → t.pos = FIDX_LEN * k
  prevFseq : t.stats.prevFseq = if i = 0 then fseqAfter (qs.take k) else fseqAfter qs
  prevPseq : t.stats.prevPseq = pseqAfter (qs.take k) (pseqBefore qs i)
  injected : t.injected =
    (List.range i).flatMap (fun i => sentIn files qs i qs.length) ++ sentIn files qs i k

theorem at_start (files : Dset → List UInt8) (qs : List Fidx) (mem : ℕ → UInt8) :
    At files qs 0 0 (start mem) :=
  ⟨rfl, rfl, fun h => absurd rfl h, rfl, rfl, rfl⟩

section Turn

variable {files : Dset → List UInt8} {qs : List Fidx} {i k : ℕ} {t : Replay}

/-- Reading a record, or the end of the index. -/
theorem turn_of_at (h : At files qs i k t) : turn files 0 t =
    (let record := ((files .fidx).drop (FIDX_LEN * k)).take FIDX_LEN
    if record = [] then
      some { t with pos := FIDX_LEN * k, looped := t.looped + 1, stats := { t.stats with pkts := 0 } }
    else if record.length ≠ FIDX_LEN then none
    else send files (.read record) (t.next (FIDX_LEN * k))) := by
  have hpos : (if t.stats.pkts = 0 then 0 else t.pos) = FIDX_LEN * k := by
    rw [h.pkts]
    split_ifs with hk
    · rw [hk, Nat.mul_zero]
    · exact h.pos hk
  unfold turn
  dsimp only
  rw [if_neg (by omega), hpos]

theorem read_of_lt (hqs : qs = fidxRecords (files .fidx)) (hk : k < qs.length) :
    (((files .fidx).drop (FIDX_LEN * k)).take FIDX_LEN).length = FIDX_LEN ∧
      .read (((files .fidx).drop (FIDX_LEN * k)).take FIDX_LEN) = qs[k] := by
  subst hqs
  have hlen : k < (files .fidx).length / FIDX_LEN := by simpa [fidxRecords, pieces] using hk
  have hmul := (Nat.le_div_iff_mul_le (by decide)).1 (Nat.succ_le_of_lt hlen)
  constructor
  · rw [List.length_take, List.length_drop]
    unfold FIDX_LEN at hmul ⊢
    omega
  · simp only [fidxRecords, pieces, List.getElem_map, List.getElem_range]

theorem turn_record (hqs : qs = fidxRecords (files .fidx))
    (readable : ∀ q ∈ qs, q.Readable files) (hk : k < qs.length) (h : At files qs i k t) :
    ∃ t', turn files 0 t = some t' ∧ At files qs i (k + 1) t' ∧
      (i = 0 → TxStats.Counted (qs.take k) t.stats → TxStats.Counted (qs.take (k + 1)) t'.stats) := by
  obtain ⟨hlen, hread⟩ := read_of_lt hqs hk
  have hsend : turn files 0 t = send files qs[k] (t.next (FIDX_LEN * k)) := by
    rw [turn_of_at h]
    dsimp only
    rw [if_neg (fun hnil => by rw [hnil] at hlen; cases hlen), if_neg (not_not.2 hlen), hread]
  have htake : qs.take (k + 1) = qs.take k ++ [qs[k]] := List.take_succ_eq_append_getElem hk
  have hmem : qs[k] ∈ qs := List.getElem_mem hk
  rw [hsend]
  cases hgood : qs[k].good with
  | false =>
    obtain ⟨pkt, hsent⟩ := send_of_bad (t := t.next (FIDX_LEN * k)) (readable _ hmem) hgood
    refine ⟨_, hsent, ⟨h.looped, congrArg (· + 1) h.pkts, fun _ => rfl, ?_, ?_, ?_⟩, fun _ hc => ?_⟩
    · refine h.prevFseq.trans ?_
      rw [htake]
      by_cases hne : qs.take k = []
      · rw [hne]
        rfl
      · rw [fseqAfter_concat _ hne, hgood]
        rfl
    · rw [htake, pseqAfter_concat, hgood]
      exact h.prevPseq
    · rw [sentIn_succ, sentFor, List.getElem?_eq_getElem hk]
      dsimp only
      rw [hgood, if_neg (by decide), List.append_nil]
      exact h.injected
    · rw [htake]
      exact (hc.of_pkts _).bad hgood
  | true =>
    obtain ⟨t', hsent, hspec⟩ :=
      send_of_good (t := t.next (FIDX_LEN * k)) (readable _ hmem) hgood
    have hfseq : (if (t.next (FIDX_LEN * k)).stats.pkts = 1 then 0 else
        ((t.next (FIDX_LEN * k)).stats.prevFseq + qs[k].ahead) % 2 ^ 16) = fseqIn qs i k qs[k] := by
      unfold fseqIn next
      dsimp only
      rw [h.prevFseq, h.pkts, htake]
      by_cases hzero : k = 0
      · rw [if_pos (by omega), if_pos hzero]
      · have hne : qs.take k ≠ [] := by
          intro hnil
          have := congrArg List.length hnil
          rw [List.length_take, List.length_nil] at this
          omega
        rw [if_neg (by omega), if_neg hzero]
        split_ifs
        · rw [fseqAfter_concat _ hne, if_pos hgood]
        · rfl
    have hpseq : qs[k].nextPseq (t.next (FIDX_LEN * k)).stats.prevPseq =
        pseqAfter (qs.take (k + 1)) (pseqBefore qs i) := by
      rw [htake, pseqAfter_concat, if_pos hgood, ← h.prevPseq]
      rfl
    rw [hfseq, hpseq] at hspec
    refine ⟨t', hsent, ⟨hspec.looped.trans h.looped, hspec.pkts.trans (congrArg (· + 1) h.pkts),
      fun _ => hspec.pos, ?_, hspec.prevPseq, ?_⟩, fun hi hc => ?_⟩
    · rw [hspec.prevFseq]
      unfold next
      dsimp only
      rw [h.looped, h.prevFseq]
      split_ifs with hi
      · unfold fseqIn
        rw [if_pos hi]
        split_ifs with hzero
        · subst hzero
          cases qs with
          | nil => rfl
          | cons q qs => rfl
        · rfl
      · rfl
    · rw [hspec.injected, sentIn_succ, sentFor, List.getElem?_eq_getElem hk]
      dsimp only
      rw [if_pos hgood, next, h.injected, List.append_assoc]
    · subst hi
      obtain ⟨pkt, typed, hpkt, hstats⟩ := hspec.counted h.looped
      rw [htake, hstats]
      refine TxStats.Counted.good (hc.of_pkts _) hgood typed ?_ h.prevFseq fun hne => ?_
      · rw [List.length_take, Nat.min_eq_left (Nat.le_of_lt hk)]
        exact congrArg (· + 1) h.pkts
      · rw [hpkt, fseqIn, if_neg, if_pos rfl, htake, fseqAfter_concat _ hne, if_pos hgood]
        rintro rfl
        exact hne rfl

theorem turn_end (hqs : qs = fidxRecords (files .fidx))
    (whole : (files .fidx).length % FIDX_LEN = 0) (h : At files qs i qs.length t) :
    ∃ t', turn files 0 t = some t' ∧ At files qs (i + 1) 0 t' := by
  have hlen : FIDX_LEN * qs.length = (files .fidx).length := by
    rw [hqs]
    simp only [fidxRecords, pieces, List.length_map, List.length_range]
    exact Nat.mul_div_cancel' (Nat.dvd_of_mod_eq_zero whole)
  have hnil : ((files .fidx).drop (FIDX_LEN * qs.length)).take FIDX_LEN = [] := by
    rw [hlen, List.drop_length, List.take_nil]
  refine ⟨{ t with
    pos := FIDX_LEN * qs.length
    looped := t.looped + 1
    stats := { t.stats with pkts := 0 } }, ?_, ?_⟩
  · rw [turn_of_at h]
    dsimp only
    rw [if_pos hnil]
  · refine ⟨congrArg (· + 1) h.looped, rfl, fun hne => absurd rfl hne, ?_, ?_, ?_⟩
    · rw [if_neg (Nat.succ_ne_zero i)]
      dsimp only
      rw [h.prevFseq, List.take_length]
      split_ifs <;> rfl
    · have := h.prevPseq
      rw [List.take_length] at this
      exact this
    · dsimp only
      rw [h.injected, List.range_succ, List.flatMap_append, List.flatMap_singleton]
      exact (List.append_nil _).symm

end Turn

section Run

variable {files : Dset → List UInt8} {numLoops : ℕ}

theorem turns_add (skip m n : ℕ) (t : Replay) :
    turns files skip numLoops (m + n) t =
      (turns files skip numLoops m t).bind (turns files skip numLoops n) := by
  induction m generalizing t with
  | zero => rw [Nat.zero_add, turns, Option.bind_some]
  | succ m ih =>
    rw [Nat.add_right_comm, turns, turns]
    split_ifs
    · rfl
    · cases turn files skip t with
      | none => rfl
      | some t' => exact ih t'

theorem turns_one {t t' : Replay} (ne : t.looped ≠ numLoops) (h : turn files 0 t = some t') :
    turns files 0 numLoops 1 t = some t' := by
  rw [turns, if_neg ne, h]
  rfl

variable {qs : List Fidx} (hqs : qs = fidxRecords (files .fidx))
  (whole : (files .fidx).length % FIDX_LEN = 0) (readable : ∀ q ∈ qs, q.Readable files)

include hqs readable

theorem turns_records {i k : ℕ} {t : Replay} (hi : i < numLoops) (hk : k ≤ qs.length)
    (h : At files qs i 0 t) : ∃ t', turns files 0 numLoops k t = some t' ∧ At files qs i k t' ∧
      (i = 0 → TxStats.Counted [] t.stats → TxStats.Counted (qs.take k) t'.stats) := by
  induction k with
  | zero => exact ⟨t, rfl, h, fun _ hc => hc⟩
  | succ k ih =>
    obtain ⟨t₁, hrun, h₁, hc₁⟩ := ih (Nat.le_of_succ_le hk)
    obtain ⟨t', hturn, h', hc'⟩ := turn_record hqs readable hk h₁
    refine ⟨t', ?_, h', fun hi hc => hc' hi (hc₁ hi hc)⟩
    rw [turns_add, hrun]
    exact turns_one (by rw [h₁.looped]; exact Nat.ne_of_lt hi) hturn

include whole

theorem turns_passes {i : ℕ} (mem : ℕ → UInt8) (hi : i ≤ numLoops) :
    ∃ t, turns files 0 numLoops ((qs.length + 1) * i) (start mem) = some t ∧ At files qs i 0 t := by
  induction i with
  | zero => exact ⟨_, rfl, at_start files qs mem⟩
  | succ i ih =>
    obtain ⟨t, hrun, h⟩ := ih (Nat.le_of_succ_le hi)
    obtain ⟨t₁, hrecords, h₁, -⟩ := turns_records hqs readable hi (Nat.le_refl _) h
    obtain ⟨t', hend, h'⟩ := turn_end hqs whole h₁
    refine ⟨t', ?_, h'⟩
    rw [Nat.mul_succ, turns_add, hrun, Option.bind_some, turns_add, hrecords]
    exact turns_one (by rw [h₁.looped]; exact Nat.ne_of_lt hi) hend

end Run

/-- A frame index of whole records, each with its payload in its data file, is replayed without an
end but after `numLoops` passes: after any number of turns until then, the frames of the records
were injected in their order, as often as there were passes, and those of bad frames left out. -/
theorem replays (files : Dset → List UInt8) (mem : ℕ → UInt8) (numLoops n : ℕ)
    (whole : (files .fidx).length % FIDX_LEN = 0)
    (readable : ∀ q ∈ fidxRecords (files .fidx), q.Readable files)
    (hn : n ≤ ((fidxRecords (files .fidx)).length + 1) * numLoops) :
    ∃ t, turns files 0 numLoops n (start mem) = some t ∧
      t.looped = n / ((fidxRecords (files .fidx)).length + 1) ∧
      t.injected = (List.range t.looped).flatMap (fun i =>
          sentIn files (fidxRecords (files .fidx)) i (fidxRecords (files .fidx)).length) ++
        sentIn files (fidxRecords (files .fidx)) t.looped
          (n % ((fidxRecords (files .fidx)).length + 1)) := by
  generalize hqs : fidxRecords (files .fidx) = qs at readable hn ⊢
  have hlt : n % (qs.length + 1) < qs.length + 1 := Nat.mod_lt _ (Nat.succ_pos _)
  have hsplit : (qs.length + 1) * (n / (qs.length + 1)) + n % (qs.length + 1) = n :=
    Nat.div_add_mod _ _
  have hle : n / (qs.length + 1) ≤ numLoops := Nat.div_le_of_le_mul hn
  obtain ⟨t₀, hpasses, h₀⟩ := turns_passes hqs.symm whole readable mem hle
  obtain ⟨t, hrun, h⟩ : ∃ t, turns files 0 numLoops (n % (qs.length + 1)) t₀ = some t ∧
      At files qs (n / (qs.length + 1)) (n % (qs.length + 1)) t := by
    rcases Nat.lt_or_ge (n / (qs.length + 1)) numLoops with hi | hi
    · obtain ⟨t, hrun, h, -⟩ := turns_records hqs.symm readable hi (Nat.le_of_lt_succ hlt) h₀
      exact ⟨t, hrun, h⟩
    · have hzero : n % (qs.length + 1) = 0 := by
        have := Nat.mul_le_mul_left (qs.length + 1) hi
        omega
      rw [hzero]
      exact ⟨t₀, rfl, h₀⟩
  refine ⟨t, ?_, h.looped, ?_⟩
  · conv_lhs => rw [← hsplit]
    rw [turns_add, hpasses]
    exact hrun
  · rw [h.injected, h.looped]

/-- An index of a tick and an event, with their payloads. -/
def smallFiles : Dset → List UInt8
  | .fidx => (⟨0, 24, 3, 0, FTYPE_TICK, 0, false, true⟩ : Fidx).bytes ++
      (⟨0, 8, 1, 0, TESPKT_TYPE_PEAK, 0, false, true⟩ : Fidx).bytes
  | .tdat => List.replicate 24 1
  | .edat => List.replicate 8 2
  | _ => []

theorem readable_smallFiles : ∀ q ∈ fidxRecords (smallFiles .fidx), q.Readable smallFiles := by
  intro q hq
  have hq' : q = ⟨0, 24, 3, 0, FTYPE_TICK, 0, false, true⟩ ∨
      q = ⟨0, 8, 1, 0, TESPKT_TYPE_PEAK, 0, false, true⟩ := by
    revert q
    decide
  rcases hq' with rfl | rfl
  · exact ⟨by decide, fun ds hds => by cases hds; decide⟩
  · exact ⟨by decide, fun ds hds => by cases hds; decide⟩

theorem replays_smallFiles : ∃ t, turns smallFiles 0 2 5 (start fun _ => 0) = some t ∧
    t.looped = 1 ∧ t.injected.length = 4 := by
  obtain ⟨t, hrun, hlooped, hinjected⟩ := replays smallFiles (fun _ => 0) 2 5 (by decide)
    readable_smallFiles (by decide)
  exact ⟨t, hrun, hlooped, by rw [hinjected, hlooped]; rfl⟩

/-- When the end of the index is first reached, the statistics count the frames of each kind, and
those that the index says are missing. -/
theorem stats_of_pass (files : Dset → List UInt8) (mem : ℕ → UInt8) {numLoops : ℕ}
    (pos : 0 < numLoops) (readable : ∀ q ∈ fidxRecords (files .fidx), q.Readable files) :
    ∃ t, turns files 0 numLoops (fidxRecords (files .fidx)).length (start mem) = some t ∧
      t.looped = 0 ∧ t.stats.pkts = (fidxRecords (files .fidx)).length ∧
      TxStats.Counted (fidxRecords (files .fidx)) t.stats := by
  obtain ⟨t, hrun, h, hc⟩ := turns_records rfl readable pos (Nat.le_refl _) (at_start files _ mem)
  refine ⟨t, hrun, h.looped, h.pkts, ?_⟩
  have hcounted := hc rfl TxStats.counted_zero
  rwa [List.take_length] at hcounted

theorem stats_of_pass_smallFiles : ∃ t, turns smallFiles 0 1 2 (start fun _ => 0) = some t ∧
    t.stats.pkts = 2 ∧ t.stats.peaks = 1 ∧ t.stats.missed = 1 := by
  obtain ⟨t, hrun, -, hpkts, hcounted⟩ := stats_of_pass smallFiles (fun _ => 0) (by decide : 0 < 1)
    readable_smallFiles
  exact ⟨t, hrun, hpkts, hcounted.peaks, hcounted.missed⟩

end Replay

end Tesd
