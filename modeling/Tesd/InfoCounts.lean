import Tesd.OneReply

/-!
# What the information task counts

Over the frames between a request and its timer, the counters of `task_info_pkt_hn` are compared
with what the reply is documented to say.  The last branch of the handler takes every frame that no
other one takes: apart from event frames these are the MCA frames that are not headers, and the
size of an event, which these do not have, is what it divides by.
-/

namespace Tesd

open RepTask

namespace Call

/-- The frame has no error. -/
def valid (call : Call) : Bool := call.slot.err == 0

/-- An MCA frame that is not a header. -/
def mcaRest (call : Call) : Bool :=
  call.valid && call.slot.pkt.isMca && !call.slot.pkt.isHeader

/-- An event frame that is neither a tick nor a trace. -/
def plainEvent (call : Call) : Bool :=
  call.valid && call.slot.pkt.isEvent && !call.slot.pkt.isTick && !call.slot.pkt.isTrace

/-- The frame is left to the last branch of `task_info_pkt_hn`. -/
def counted (call : Call) : Bool :=
  let pkt := call.slot.pkt
  call.valid && !pkt.isTick && !(pkt.isMca && pkt.isHeader) &&
    !((pkt.isTraceLong && pkt.isHeader) || pkt.isTraceDp)

/-- `task_info_pkt_hn` divides by zero, in `tespkt_event_nums`. -/
def dividesByZero (call : Call) : Bool :=
  call.counted && !call.slot.pkt.isTrace && call.slot.pkt.trueEsize == 0

end Call

/-! ## What the reply should say -/

/-- Two counts, one on top of the other. -/
def InfoData.add (a b : InfoData) : InfoData where
  received := a.received + b.received
  missed := a.missed + b.missed
  bad := a.bad + b.bad
  ticks := a.ticks + b.ticks
  mcas := a.mcas + b.mcas
  traces := a.traces + b.traces
  events := a.events + b.events

/-- The events in these frames. -/
def eventSum (calls : List Call) : ℕ := (calls.map fun call => call.slot.pkt.eventNums).sum

/-- What the reply should say about these frames. -/
def infoCounts (calls : List Call) : InfoData where
  received := .ofNat calls.length
  missed := .ofNat (calls.map Call.missed).sum
  bad := .ofNat (calls.countP fun call => !call.valid)
  ticks := .ofNat (calls.countP fun call => call.valid && call.slot.pkt.isTick)
  mcas := .ofNat (calls.countP fun call =>
    call.valid && call.slot.pkt.isMca && call.slot.pkt.isHeader)
  traces := .ofNat (
    (calls.countP fun call => call.valid && call.slot.pkt.isTraceLong && call.slot.pkt.isHeader) +
      calls.countP fun call => call.valid && call.slot.pkt.isTraceDp)
  events := .ofNat (eventSum (calls.filter Call.plainEvent))

/-- The events that the MCA frames which are not headers are counted for. -/
def strayEvents (calls : List Call) : ℕ := eventSum (calls.filter Call.mcaRest)

/-- What the task has counted after these frames. -/
def infoCounted (calls : List Call) : InfoData :=
  { infoCounts calls with
    events := (infoCounts calls).events + .ofNat (strayEvents calls) }

theorem infoCounts_cons (call : Call) (calls : List Call) :
    infoCounts (call :: calls) = (infoCounts [call]).add (infoCounts calls) := by
  simp only [infoCounts, InfoData.add, eventSum, ← UInt64.ofNat_add, List.length_cons,
    List.countP_cons, List.filter_cons, List.map_cons, List.sum_cons, List.length_nil,
    List.countP_nil, List.filter_nil, List.map_nil, List.sum_nil, InfoData.mk.injEq]
  refine ⟨?_, ?_, ?_, ?_, ?_, ?_, ?_⟩
  · rw [Nat.add_comm, Nat.zero_add]
  · rfl
  · rw [Nat.add_comm, Nat.zero_add]
  · rw [Nat.add_comm, Nat.zero_add]
  · rw [Nat.add_comm, Nat.zero_add]
  · congr 1
    omega
  · split_ifs <;> simp

theorem strayEvents_cons (call : Call) (calls : List Call) :
    strayEvents (call :: calls) = strayEvents [call] + strayEvents calls := by
  unfold strayEvents eventSum
  rw [List.filter_cons]
  split_ifs with h <;> simp [h]

theorem InfoData.add_assoc (a b c : InfoData) : (a.add b).add c = a.add (b.add c) := by
  simp only [InfoData.add, UInt64.add_assoc]

theorem infoCounted_cons (call : Call) (calls : List Call) :
    infoCounted (call :: calls) = (infoCounted [call]).add (infoCounted calls) := by
  unfold infoCounted
  rw [infoCounts_cons, strayEvents_cons, UInt64.ofNat_add]
  simp only [InfoData.add, InfoData.mk.injEq, true_and]
  ac_rfl

/-! ## One frame -/

/-- What `task_info_pkt_hn` looks at in a packet.  A valid one is an MCA frame, a tick, an event that
is not a trace, a trace of several frames or a dot product trace. -/
def HasKind (pkt : Tespkt) (mca tick trace dp : Bool) : Prop :=
  pkt.isMca = mca ∧ pkt.isEvent = !mca ∧ pkt.isTick = tick ∧ pkt.isTrace = trace ∧
    pkt.isTraceDp = dp ∧ pkt.isTraceLong = (trace && !dp)

/-- A frame without an error is of one kind. -/
theorem kinds_of_valid {call : Call} (h : call.valid = true) :
    HasKind call.slot.pkt true false false false ∨ HasKind call.slot.pkt false true false false ∨
      HasKind call.slot.pkt false false false false ∨
      HasKind call.slot.pkt false false true false ∨ HasKind call.slot.pkt false false true true := by
  have hvalid := (Slot.valid_of_err (beq_iff_eq.1 h)).1
  unfold HasKind Tespkt.isTraceLong Tespkt.isTraceDp Tespkt.isTrace Tespkt.isTick
  cases hmca : call.slot.pkt.isMca with
  | true => simp [Tespkt.isEvent_of_isMca hmca]
  | false =>
    have hev : call.slot.pkt.isEvent = true := by
      simpa [hmca] using Tespkt.isEvent_or_isMca_of_valid hvalid
    rcases Nat.mod_two_eq_zero_or_one ((call.slot.pkt 23).toNat / 2) with ht | ht
    · have htick : call.slot.pkt.etypeT = 0 := ht
      cases htr : call.slot.pkt.etypePKT == TESPKT_TYPE_TRACE <;>
        cases hdp : call.slot.pkt.etypeTR == TESPKT_TRACE_TYPE_DP <;>
        simp [hev, htick]
    · have htick : call.slot.pkt.etypeT = 1 := ht
      simp [hev, htick]

/-- What `task_info_pkt_hn` divides by: the event size of the MCA frames that are not headers. -/
theorem dividesByZero_iff (call : Call) :
    call.dividesByZero = true ↔ call.mcaRest = true ∧ call.slot.pkt.trueEsize = 0 := by
  cases hvalid : call.valid with
  | false => simp [Call.dividesByZero, Call.counted, Call.mcaRest, hvalid]
  | true =>
    rcases kinds_of_valid hvalid with h | h | h | h | h <;>
      obtain ⟨hmca, hev, htick, htr, hdp, hlong⟩ := h
    · simp [Call.dividesByZero, Call.counted, Call.mcaRest, *]
    · simp [Call.dividesByZero, Call.counted, Call.mcaRest, *]
    · -- the size of an event of a valid event frame is not zero
      have hpkt := (Slot.valid_of_err (beq_iff_eq.1 hvalid)).1
      have hlen := (Tespkt.eventNums_of_valid hpkt hev htr).2.1
      have hlo := (Tespkt.flen_of_valid hpkt).1
      have hsize : call.slot.pkt.trueEsize ≠ 0 := by
        intro hzero
        rw [hzero] at hlen
        omega
      simp [Call.dividesByZero, Call.mcaRest, hmca, hsize]
    · simp [Call.dividesByZero, Call.mcaRest, *]
    · simp [Call.dividesByZero, Call.mcaRest, *]

theorem infoCounted_singleton (call : Call) :
    infoCounted [call] = ⟨1, .ofNat call.missed, if call.valid then 0 else 1,
      if call.valid && call.slot.pkt.isTick then 1 else 0,
      if call.valid && call.slot.pkt.isMca && call.slot.pkt.isHeader then 1 else 0,
      (if call.valid && call.slot.pkt.isTraceLong && call.slot.pkt.isHeader then 1 else 0) +
        (if call.valid && call.slot.pkt.isTraceDp then 1 else 0),
      (if call.plainEvent then .ofNat call.slot.pkt.eventNums else 0) +
        (if call.mcaRest then .ofNat call.slot.pkt.eventNums else 0)⟩ := by
  have hone : ∀ b : Bool, (UInt64.ofNat (if b = true then 1 else 0)) = if b then 1 else 0 := by
    decide
  simp only [infoCounted, infoCounts, strayEvents, eventSum, List.countP_singleton, hone,
    UInt64.ofNat_add, InfoData.mk.injEq, List.length_singleton, List.map_cons, List.map_nil,
    List.sum_cons, List.sum_nil, List.filter_cons, List.filter_nil, Nat.add_zero, true_and]
  refine ⟨rfl, ?_, ?_⟩
  · cases call.valid <;> rfl
  · cases call.plainEvent <;> cases call.mcaRest <;> simp

/-- What `task_info_pkt_hn` makes of a frame. -/
theorem taskInfoPktHn_spec (call : Call) (v : View (RepData InfoData InfoRep)) :
    v.handle taskInfoPktHn call =
      (.zero, { v.data with own := v.data.own.add (infoCounted [call]) }) := by
  rw [infoCounted_singleton]
  unfold View.handle taskInfoPktHn InfoData.add Call.plainEvent Call.mcaRest
  cases hvalid : call.valid with
  | false =>
    have herr : call.slot.err ≠ 0 := by simpa [Call.valid] using hvalid
    simp [herr]
  | true =>
    have herr : call.slot.err = 0 := beq_iff_eq.1 hvalid
    rcases kinds_of_valid hvalid with h | h | h | h | h <;>
      obtain ⟨hmca, hev, htick, htr, hdp, hlong⟩ := h <;>
      cases hhdr : call.slot.pkt.isHeader <;>
      simp [Tespkt.eventNums, *]

/-! ## From a request to its timer -/

/-- The counts of no frames. -/
def InfoData.zero : InfoData := ⟨0, 0, 0, 0, 0, 0, 0⟩

theorem InfoData.add_zero (a : InfoData) : a.add .zero = a := by
  simp [InfoData.add, InfoData.zero]

theorem InfoData.zero_add (a : InfoData) : InfoData.zero.add a = a := by
  simp [InfoData.add, InfoData.zero]

/-- The task after it has counted a frame. -/
def RepTask.counting (t : InfoTask) (call : Call) : InfoTask :=
  { t with
    view := View.seen call.slot.pkt
      { t.view.data with own := t.view.data.own.add (infoCounted [call]) } t.view }

theorem step_packet {t : InfoTask} (active : t.active = true) (call : Call) :
    step infoHandlers (.packet call) t = some (t.counting call) := by
  have hstep : step infoHandlers (.packet call) t = t.packet infoHandlers call := if_pos active
  rw [hstep, RepTask.packet, View.packet, show infoHandlers.pktHn = taskInfoPktHn from rfl,
    taskInfoPktHn_spec]
  rfl

/-- The packets of an active task are counted, and nothing else changes. -/
theorem run_packets {t : InfoTask} (active : t.active = true) (calls : List Call) :
    ∃ t', Runs.run (step infoHandlers) (wakeup calls) t = some t' ∧
      t'.view.data = { t.view.data with own := t.view.data.own.add (infoCounted calls) } := by
  induction calls generalizing t with
  | nil =>
    refine ⟨t, rfl, ?_⟩
    rw [show infoCounted [] = .zero from rfl, InfoData.add_zero]
  | cons call calls ih =>
    obtain ⟨t', hrun, hdata⟩ := ih (t := t.counting call) active
    refine ⟨t', ?_, ?_⟩
    · rw [wakeup, List.map_cons, Runs.run, step_packet active]
      exact hrun
    · rw [hdata, infoCounted_cons, ← InfoData.add_assoc]
      rfl

/-- What an inactive task has counted has been sent. -/
def Cleared (t : InfoTask) : Prop := t.active = false → t.view.data.own = .zero

theorem cleared_step (e : RepEvent InfoReq) (t t' : InfoTask) (cleared : Cleared t)
    (h : step infoHandlers e t = some t') : Cleared t' := by
  cases e with
  | request req =>
    simp only [step, infoHandlers, Option.ite_none_right_eq_some, Option.some.injEq] at h
    obtain ⟨-, rfl⟩ := h
    unfold taskInfoReqHn
    split_ifs with hreq
    · exact cleared
    · intro hidle
      cases hidle
  | timer id =>
    simp only [step, Option.ite_none_right_eq_some, Option.some.injEq] at h
    obtain ⟨-, rfl⟩ := h
    exact fun _ => rfl
  | packet call =>
    cases hactive : t.active with
    | true =>
      rw [step_packet hactive] at h
      obtain rfl := Option.some.inj h
      exact fun hidle => absurd (hactive.symm.trans hidle) (by decide)
    | false =>
      simp only [step, hactive, Bool.false_eq_true, if_false, Option.some.injEq] at h
      obtain rfl := h
      exact cleared

/-- A task that can read a request is inactive, and has counted nothing. -/
theorem idle_of_reader {before : List (RepEvent InfoReq)} {t : InfoTask}
    (h : Runs.run (step infoHandlers) before infoStart = some t) (reader : t.reader = true) :
    t.active = false ∧ t.view.data.own = .zero := by
  have hidle := (oneReply_of_serves serves_info ⟨rfl, rfl, 0, rfl⟩).request before t h reader
  exact ⟨hidle, Runs.invariant cleared_step (fun _ => rfl) h hidle⟩

/-- After an accepted request, and some packets, the timer expires; the reply carries the counts of
these packets. -/
theorem run_request {before : List (RepEvent InfoReq)} {t : InfoTask}
    (h : Runs.run (step infoHandlers) before infoStart = some t) (reader : t.reader = true)
    {req : InfoReq} (timeout : req.timeout ≠ 0) (calls : List Call) :
    ∃ t', Runs.run (step infoHandlers)
        (.request req :: (wakeup calls ++ [.timer (t.view.data.timers.last + 1)])) t = some t' ∧
      t'.view.data.replies = t.view.data.replies ++ [⟨TES_INFO_REQ_OK, infoCounted calls⟩] := by
  obtain ⟨-, hown⟩ := idle_of_reader h reader
  obtain ⟨t₁, hrun, hdata⟩ := run_packets (t := taskInfoReqHn req
    { t with requests := t.requests + 1 }) (by rw [taskInfoReqHn, if_neg timeout]; rfl) calls
  rw [taskInfoReqHn, if_neg timeout] at hrun hdata
  have harmed : t.view.data.timers.last + 1 ∈ t₁.view.data.timers.armed := by
    rw [hdata]
    exact List.mem_cons_self
  refine ⟨infoTimeoutHn (t₁.withData { t₁.view.data with
    timers := t₁.view.data.timers.stop (t.view.data.timers.last + 1) }), ?_, ?_⟩
  · have hreq : step infoHandlers (.request req) t =
        some (taskInfoReqHn req { t with requests := t.requests + 1 }) := if_pos reader
    rw [Runs.run, hreq, taskInfoReqHn, if_neg timeout, Option.bind_some, Runs.run_append, hrun,
      Option.bind_some, Runs.run, step, if_pos harmed]
    rfl
  · change t₁.view.data.replies ++ [⟨TES_INFO_REQ_OK, t₁.view.data.own⟩] = _
    rw [hdata]
    change t.view.data.replies ++ [⟨_, t.view.data.own.add _⟩] = _
    rw [hown, InfoData.zero_add]

theorem infoCounted_eq_iff (calls : List Call) :
    infoCounted calls = infoCounts calls ↔ strayEvents calls % 2 ^ 64 = 0 := by
  have hzero : ∀ a b : UInt64, a + b = a ↔ b = 0 := fun a b => by
    constructor
    · intro h
      have := congrArg (· - a) h
      simpa [UInt64.add_comm a b] using this
    · rintro rfl
      exact UInt64.add_zero a
  have hmod : UInt64.ofNat (strayEvents calls) = 0 ↔ strayEvents calls % 2 ^ 64 = 0 := by
    rw [← UInt64.toNat_inj, UInt64.toNat_ofNat']
    rfl
  rw [← hmod, ← hzero (infoCounts calls).events]
  constructor
  · exact fun h => congrArg InfoData.events h
  · intro h
    unfold infoCounted
    rw [h]

/-- The reply to an accepted request says what it should, and the task has not divided by zero,
exactly if the MCA frames that are not headers happen to have an event size, one for which the last
branch finds no events in them. -/
theorem info_reply_iff {before : List (RepEvent InfoReq)} {t : InfoTask}
    (h : Runs.run (step infoHandlers) before infoStart = some t) (reader : t.reader = true)
    {req : InfoReq} (timeout : req.timeout ≠ 0) (calls : List Call) :
    ∃ t', Runs.run (step infoHandlers)
        (.request req :: (wakeup calls ++ [.timer (t.view.data.timers.last + 1)])) t = some t' ∧
      (((∀ call ∈ calls, call.dividesByZero = false) ∧
          t'.view.data.replies =
            t.view.data.replies ++ [⟨TES_INFO_REQ_OK, infoCounts calls⟩]) ↔
        (∀ call ∈ calls, call.mcaRest = true → call.slot.pkt.trueEsize ≠ 0) ∧
          strayEvents calls % 2 ^ 64 = 0) := by
  obtain ⟨t', hrun, hreplies⟩ := run_request h reader timeout calls
  refine ⟨t', hrun, and_congr (forall₂_congr fun call _ => ?_) ?_⟩
  · rw [← Bool.not_eq_true, dividesByZero_iff]
    tauto
  · rw [hreplies, List.append_right_inj, List.singleton_inj, ← infoCounted_eq_iff]
    constructor
    · exact fun heq => congrArg InfoRep.counts heq
    · exact fun heq => by rw [heq]

/-- An MCA frame of eight bytes that is not a header. -/
def mcaRestFrame (esize : UInt8) : Call := ⟨Slot.sample 32 0xB6 32 0 1 esize 0 [], 0⟩

theorem info_reply_iff_mcaRestFrame :
    ∃ t', Runs.run (step infoHandlers)
        (.request ⟨1, 0, 0⟩ :: (wakeup [mcaRestFrame 1] ++ [.timer 1])) infoStart = some t' ∧
      (((∀ call ∈ [mcaRestFrame 1], call.dividesByZero = false) ∧
          t'.view.data.replies = [⟨TES_INFO_REQ_OK, infoCounts [mcaRestFrame 1]⟩]) ↔
        (∀ call ∈ [mcaRestFrame 1], call.mcaRest = true → call.slot.pkt.trueEsize ≠ 0) ∧
          strayEvents [mcaRestFrame 1] % 2 ^ 64 = 0) :=
  @info_reply_iff [] infoStart rfl rfl ⟨1, 0, 0⟩ (by decide) _

example : (mcaRestFrame 0).dividesByZero = true := by decide

/-- The reply counts one event in a frame that has none. -/
theorem not_info_reply :
    ¬∀ calls t', Runs.run (step infoHandlers)
        (.request ⟨1, 0, 0⟩ :: (wakeup calls ++ [.timer 1])) infoStart = some t' →
      (∀ call ∈ calls, call.dividesByZero = false) ∧
        t'.view.data.replies = [⟨TES_INFO_REQ_OK, infoCounts calls⟩] := by
  intro hall
  obtain ⟨t', hrun, hreplies⟩ := @run_request [] infoStart rfl rfl ⟨1, 0, 0⟩ (by decide)
    [mcaRestFrame 1]
  obtain ⟨-, hclaim⟩ := hall [mcaRestFrame 1] t' hrun
  rw [hclaim] at hreplies
  revert hreplies
  decide

end Tesd
