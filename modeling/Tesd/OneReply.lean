import Tesd.Avgtr
import Tesd.CapTask
import Tesd.Info

/-!
# One reply per request

Requests and replies of the tasks that serve one client at a time.  A request that is not answered
at once makes the task active, and what makes it inactive again sends the reply; a timer is only
armed while the task is active.
-/

namespace Tesd

section Generic

variable {κ δ ρ : Type} {h : RepHandlers κ δ ρ} {t t' : RepTask δ ρ}

namespace RepTask

/-- The replies that a task has sent. -/
def replies (t : RepTask δ ρ) : List ρ := t.view.data.replies

/-- The replies that a task owes. -/
def owed (t : RepTask δ ρ) : ℕ := if t.active then 1 else 0

/-- What a handler does about a request: it leaves the task active, or it sends the reply. -/
structure Answers (t t' : RepTask δ ρ) : Prop where
  requests : t'.requests = t.requests
  reader : t'.reader = !t'.active
  replies : t'.replies.length + t'.owed = t.replies.length + 1

end RepTask

open RepTask

/-- Each handler answers the request it is about; `Timed` says how the timers of the task agree with
its being active. -/
structure Serves (h : RepHandlers κ δ ρ) (Timed : Bool → RepData δ ρ → Prop) : Prop where
  request : ∀ {req} {t t' : RepTask δ ρ}, t.active = false → t.reader = true →
    Timed false t.view.data → h.reqHn req t = some t' →
      Answers t t' ∧ Timed t'.active t'.view.data
  timer : ∀ {id} {t : RepTask δ ρ}, Timed t.active t.view.data →
    id ∈ t.view.data.timers.armed → t.active = true ∧ ∀ t', t' = h.timeoutHn (t.withData
      { t.view.data with timers := t.view.data.timers.stop id }) →
        Answers t t' ∧ Timed t'.active t'.view.data
  goOn : ∀ {call} {v : View (RepData δ ρ)} {d}, Timed true v.data →
    v.handle h.pktHn call = (.zero, d) → d.replies = v.data.replies ∧ Timed true d
  done : ∀ {call} {v : View (RepData δ ρ)} {d}, Timed true v.data →
    v.handle h.pktHn call = (.sleep, d) →
      d.replies.length = v.data.replies.length + 1 ∧ Timed false d

/-- The reader is registered while the task is inactive, and the task owes a reply while it is
active. -/
structure Accounted (Timed : Bool → RepData δ ρ → Prop) (t : RepTask δ ρ) : Prop where
  reader : t.reader = !t.active
  requests : t.requests = t.replies.length + t.owed
  timed : Timed t.active t.view.data

variable {Timed : Bool → RepData δ ρ → Prop}

theorem accounted_of_answers (answers : Answers t t') (timed : Timed t'.active t'.view.data)
    (requests : t.requests = t.replies.length + 1) : Accounted Timed t' := by
  refine ⟨answers.reader, ?_, timed⟩
  rw [answers.requests, requests, answers.replies]

theorem accounted_step (serves : Serves h Timed) (e : RepEvent κ) (t t' : RepTask δ ρ)
    (accounted : Accounted Timed t) (hstep : step h e t = some t') : Accounted Timed t' := by
  cases e with
  | request req =>
    unfold step at hstep
    dsimp only at hstep
    split_ifs at hstep with hreader
    have hidle : t.active = false := by
      have := accounted.reader
      rw [hreader] at this
      simpa using this.symm
    have htimed := accounted.timed
    rw [hidle] at htimed
    have hcount := accounted.requests
    rw [owed, hidle, if_neg (by decide)] at hcount
    obtain ⟨answers, timed⟩ := serves.request (t := { t with requests := t.requests + 1 }) hidle
      hreader htimed hstep
    exact accounted_of_answers answers timed (congrArg (· + 1) hcount)
  | timer id =>
    unfold step at hstep
    dsimp only at hstep
    split_ifs at hstep with harmed
    obtain ⟨hactive, hanswers⟩ := serves.timer accounted.timed harmed
    obtain ⟨answers, timed⟩ := hanswers t' (Option.some.inj hstep).symm
    have hcount := accounted.requests
    rw [owed, if_pos hactive] at hcount
    exact accounted_of_answers answers timed hcount
  | packet call =>
    unfold step at hstep
    dsimp only at hstep
    split_ifs at hstep with hactive
    · have htimed := accounted.timed
      rw [hactive] at htimed
      have hcount := accounted.requests
      rw [owed, if_pos hactive] at hcount
      unfold packet View.packet at hstep
      rcases hres : t.view.handle h.pktHn call with ⟨rc, d⟩
      rw [hres] at hstep
      cases rc with
      | zero =>
        obtain ⟨hreplies, htimed'⟩ := serves.goOn htimed hres
        obtain rfl := Option.some.inj hstep
        refine ⟨accounted.reader, ?_, ?_⟩
        · rw [owed, if_pos hactive]
          exact hcount.trans (congrArg (fun l => l.length + 1) hreplies.symm)
        · exact hactive ▸ htimed'
      | sleep =>
        obtain ⟨hreplies, htimed'⟩ := serves.done htimed hres
        obtain rfl := Option.some.inj hstep
        exact ⟨rfl, hcount.trans hreplies.symm, htimed'⟩
      | error => cases hstep
    · obtain rfl := Option.some.inj hstep
      exact accounted

/-- What the client of a task sees, in every run from `start`: the reader, without which the handler
of requests does not run, is only registered while the task is inactive, and there is one reply to
each request, the last of which may still be owed while the task is active. -/
structure OneReply (h : RepHandlers κ δ ρ) (start : RepTask δ ρ) : Prop where
  request : ∀ evs t, Runs.run (step h) evs start = some t → t.reader = true → t.active = false
  replies_le : ∀ evs t, Runs.run (step h) evs start = some t → t.replies.length ≤ t.requests
  requests_le : ∀ evs t, Runs.run (step h) evs start = some t → t.requests ≤ t.replies.length + 1
  eq : ∀ evs t, Runs.run (step h) evs start = some t → t.active = false →
    t.requests = t.replies.length

theorem oneReply_of_serves {start : RepTask δ ρ} (serves : Serves h Timed)
    (accounted : Accounted Timed start) : OneReply h start := by
  have hrun : ∀ evs t, Runs.run (step h) evs start = some t → Accounted Timed t := fun evs t ht =>
    Runs.invariant (accounted_step serves) accounted ht
  constructor
  · intro evs t ht hread
    have hreader := (hrun evs t ht).reader
    rw [hread] at hreader
    simpa using hreader.symm
  · intro evs t ht
    have := (hrun evs t ht).requests
    omega
  · intro evs t ht
    have := (hrun evs t ht).requests
    unfold owed at this
    split_ifs at this
    · omega
    · omega
  · intro evs t ht hidle
    have := (hrun evs t ht).requests
    rwa [owed, hidle, if_neg (by decide)] at this

/-- A reply is sent at once. -/
theorem answers_reply {t : RepTask δ ρ} {d : RepData δ ρ} {rep : ρ} (idle : t.active = false)
    (reader : t.reader = true) (replies : d.replies = t.view.data.replies ++ [rep]) :
    Answers t (t.withData d) := by
  have hactive : (t.withData d).active = false := idle
  refine ⟨rfl, ?_, ?_⟩
  · rw [hactive]
    exact reader
  · rw [owed, if_neg (by simp [hactive])]
    change d.replies.length = _
    rw [replies, List.length_append]
    rfl

/-- The reply is left to what comes. -/
theorem answers_activate {t : RepTask δ ρ} {d : RepData δ ρ}
    (replies : d.replies = t.view.data.replies) : Answers t (t.withData d).activate :=
  ⟨rfl, rfl, congrArg (fun l => l.length + 1) replies⟩

/-- A reply is sent, and the task sleeps. -/
theorem answers_deactivate {t t' : RepTask δ ρ} {rep : ρ} (requests : t'.requests = t.requests)
    (reader : t'.reader = true) (idle : t'.active = false)
    (replies : t'.view.data.replies = t.view.data.replies ++ [rep]) : Answers t t' := by
  refine ⟨requests, by rw [reader, idle]; rfl, ?_⟩
  rw [owed, idle, if_neg (by decide), RepTask.replies, replies, List.length_append]
  rfl

end Generic

/-! ## The information task -/

/-- One timer is armed while the task is active, and none otherwise. -/
def InfoTimed (active : Bool) (d : RepData InfoData InfoRep) : Prop :=
  ∃ id, d.timers.armed = if active then [id] else []

theorem armed_of_timed {active : Bool} {armed : List ℕ} {id id' : ℕ}
    (h : armed = if active then [id'] else []) (mem : id ∈ armed) :
    active = true ∧ armed.filter (· ≠ id) = [] := by
  cases active with
  | false =>
    subst h
    exact absurd mem List.not_mem_nil
  | true =>
    subst h
    obtain rfl := List.mem_singleton.1 mem
    simp

theorem serves_info : Serves infoHandlers InfoTimed := by
  constructor
  · intro req t t' hidle hreader htimed h
    obtain rfl := Option.some.inj h
    unfold taskInfoReqHn
    split_ifs
    · refine ⟨answers_reply hidle hreader rfl, ?_⟩
      rw [← hidle] at htimed
      exact htimed
    · refine ⟨answers_activate rfl, t.view.data.timers.last + 1, ?_⟩
      obtain ⟨id, harmed⟩ := htimed
      change _ :: t.view.data.timers.armed = _
      rw [harmed]
      rfl
  · intro id t htimed harmed
    obtain ⟨id', htimers⟩ := htimed
    obtain ⟨hactive, hstop⟩ := armed_of_timed htimers harmed
    refine ⟨hactive, ?_⟩
    rintro t' rfl
    exact ⟨answers_deactivate rfl rfl rfl rfl, id, hstop⟩
  · intro call v d htimed h
    obtain rfl := (Prod.mk.inj h).2
    exact ⟨rfl, htimed⟩
  · intro call v d htimed h
    cases (Prod.mk.inj h).1

/-! ## The average trace task -/

/-- The timer of the trace is armed while the task is active, and none otherwise. -/
def AvgtrTimed (active : Bool) (d : RepData AvgtrData AvgtrRep) : Prop :=
  d.timers.armed = if active then [d.own.timer] else []

theorem begin_timer (pkt : Tespkt) (trace : AvgtrData) :
    (trace.begin pkt).timer = trace.timer := by
  unfold AvgtrData.begin
  split_ifs <;> rfl

theorem timed_avgtrDone {rep : AvgtrRep} {d : RepData AvgtrData AvgtrRep} (h : AvgtrTimed true d) :
    AvgtrTimed false (avgtrDone rep d).2 := by
  change d.timers.armed.filter (· ≠ d.own.timer) = []
  rw [h]
  simp

/-- What `task_avgtr_pkt_hn` does to the client: nothing, or it replies and the task sleeps. -/
theorem avgtr_handle (call : Call) {v : View (RepData AvgtrData AvgtrRep)}
    (timed : AvgtrTimed true v.data) :
    (∃ d, v.handle taskAvgtrPktHn call = (.zero, d) ∧ d.replies = v.data.replies ∧
        AvgtrTimed true d) ∨
      ∃ d rep, v.handle taskAvgtrPktHn call = (.sleep, d) ∧ d.replies = v.data.replies ++ [rep] ∧
        AvgtrTimed false d := by
  have hopened : (avgtrOpened call v).timer = v.data.own.timer := begin_timer _ _
  have htimed : ∀ own : AvgtrData, own.timer = v.data.own.timer →
      AvgtrTimed true { v.data with own := own } := by
    intro own hown
    rw [AvgtrTimed] at timed ⊢
    rw [timed, hown]
  rcases avgtr_cases call v with ⟨hres, -⟩ | ⟨hres, -⟩ | ⟨-, hres⟩
  · exact Or.inl ⟨_, hres, rfl, timed⟩
  · exact Or.inr ⟨_, _, hres, rfl, timed_avgtrDone (htimed _ hopened)⟩
  · dsimp only at hres
    split_ifs at hres
    · exact Or.inr ⟨_, _, hres, rfl, timed_avgtrDone (htimed _ hopened)⟩
    · exact Or.inl ⟨_, hres, rfl, htimed _ hopened⟩

theorem serves_avgtr : Serves avgtrHandlers AvgtrTimed := by
  constructor
  · intro timeout t t' hidle hreader htimed h
    obtain rfl := Option.some.inj h
    unfold taskAvgtrReqHn
    split_ifs
    · refine ⟨answers_reply hidle hreader rfl, ?_⟩
      rw [← hidle] at htimed
      exact htimed
    · refine ⟨answers_activate rfl, ?_⟩
      change _ :: t.view.data.timers.armed = _
      rw [htimed]
      rfl
  · intro id t htimed harmed
    obtain ⟨hactive, hstop⟩ := armed_of_timed htimed harmed
    refine ⟨hactive, ?_⟩
    rintro t' rfl
    exact ⟨answers_deactivate rfl rfl rfl rfl, hstop⟩
  · intro call v d htimed h
    rcases avgtr_handle call htimed with ⟨d', hres, hreplies, htimed'⟩ | ⟨d', rep, hres, -⟩
    · obtain rfl := (Prod.mk.inj (hres.symm.trans h)).2
      exact ⟨hreplies, htimed'⟩
    · cases (Prod.mk.inj (hres.symm.trans h)).1
  · intro call v d htimed h
    rcases avgtr_handle call htimed with ⟨d', hres, -⟩ | ⟨d', rep, hres, hreplies, htimed'⟩
    · cases (Prod.mk.inj (hres.symm.trans h)).1
    · obtain rfl := (Prod.mk.inj (hres.symm.trans h)).2
      refine ⟨?_, htimed'⟩
      rw [hreplies, List.length_append]
      rfl

/-! ## The capture task -/

/-- The task has no timers. -/
def CapTimed (_ : Bool) (d : RepData CapOwn CapReply) : Prop := d.timers.armed = []

theorem activated_query (w : CapWorld) (d : CapData) (fs : Posix.FileSystem) :
    (d.query w fs).activated = (d.query w fs).reply.isNone := by
  unfold CapData.query
  generalize (if d.job.core.noconvert = true then (CapStatus.ok, fs) else w.conv d fs) = r
  dsimp only
  split
  · rfl
  · split
    · rfl
    · rfl

theorem activated_start (w : CapWorld) (d : CapData) (fs : Posix.FileSystem) :
    (d.start w fs).activated = (d.start w fs).reply.isNone := by
  unfold CapData.start
  split
  · dsimp only
    split_ifs <;> rfl
  · rfl

/-- The handler of a request activates the task unless it has replied. -/
theorem activated_taskCapReqHn {w : CapWorld} {req : CapRequest} {d : CapData}
    {fs : Posix.FileSystem} {out : CapOutcome} (h : taskCapReqHn w req d fs = some out) :
    out.activated = out.reply.isNone := by
  rcases taskCapReqHn_cases h with ⟨rc, d₁, -, -, rfl⟩ | ⟨d₁, -, hrest⟩
  · rfl
  · rcases hrest with ⟨rc, d₂, fs₁, -, -, rfl⟩ | ⟨d₂, fs₁, -, rfl⟩
    · rfl
    · by_cases hquery : d₂.nocapture = true
      · rw [if_pos hquery]
        exact activated_query w d₂ fs₁
      · rw [if_neg hquery]
        exact activated_start w d₂ fs₁

theorem serves_cap : Serves capHandlers CapTimed := by
  constructor
  · intro call t t' hidle hreader htimed h
    change capReqHn call t = some t' at h
    unfold capReqHn at h
    split at h
    · cases h
    next out hout =>
      have hact := activated_taskCapReqHn hout
      obtain rfl := Option.some.inj h
      cases hrep : out.reply with
      | none =>
        rw [hrep, Option.isNone_none] at hact
        rw [if_pos hact]
        exact ⟨answers_activate rfl, htimed⟩
      | some rep =>
        rw [hrep, Option.isNone_some] at hact
        rw [hact, if_neg (by decide)]
        exact ⟨answers_reply hidle hreader rfl, htimed⟩
  · intro id t htimed harmed
    rw [htimed] at harmed
    exact absurd harmed List.not_mem_nil
  · intro call v d htimed h
    change v.handle capPktHn call = _ at h
    rw [capPktHn_of_call] at h
    split at h
    · cases (Prod.mk.inj h).1
    · obtain rfl := (Prod.mk.inj h).2
      exact ⟨rfl, htimed⟩
    · cases (Prod.mk.inj h).1
  · intro call v d htimed h
    change v.handle capPktHn call = _ at h
    rw [capPktHn_of_call] at h
    split at h
    · cases (Prod.mk.inj h).1
    · cases (Prod.mk.inj h).1
    · obtain rfl := (Prod.mk.inj h).2
      refine ⟨?_, htimed⟩
      rw [RepData.reply_replies, List.length_append]
      rfl

/-! ## All three -/

/-- In every run of the information, the capture and the average trace task there is one reply to
each request. -/
theorem one_reply : OneReply infoHandlers infoStart ∧ OneReply capHandlers capStart ∧
    OneReply avgtrHandlers avgtrStart :=
  ⟨oneReply_of_serves serves_info ⟨rfl, rfl, 0, rfl⟩,
    oneReply_of_serves serves_cap ⟨rfl, rfl, rfl⟩,
    oneReply_of_serves serves_avgtr ⟨rfl, rfl, rfl⟩⟩

end Tesd
