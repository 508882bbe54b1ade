import Tesd.Hdf5Status
import Tesd.Lib.Runs

/-!
# Running a task in a fork

`fork_and_run` of `daemon_ng.c`: the parent, the first child, which waits for the initializer, and
the second child, which calls it and then the action.  They take their steps in any order.  The
second child writes a byte to a pipe, the first one exits with a status, and the parent returns it.
-/

namespace Tesd

open Runs

def EXIT_SUCCESS : ℕ := 0
def EXIT_FAILURE : ℕ := 1

/-- `DAEMON_OK_MSG` and `DAEMON_ERR_MSG`. -/
inductive DaemonMsg
  | ok | err
  deriving DecidableEq

/-- How the call of a function ends, if the function is given. -/
inductive DaemonEnd
  | null
  | returns (rc : ℤ)
  /-- a failed assertion ends the process -/
  | aborts
  deriving DecidableEq

namespace ForkAndRun

inductive Parent
  | start | waiting
  | returned (rc : ℤ)
  deriving DecidableEq

/-- The first child; `leaving` is after `s_wait_sig` has returned. -/
inductive Child₁
  | unborn | start | piped | polling | reading
  | leaving (rc : ℤ)
  | exited (status : ℕ)
  deriving DecidableEq

/-- The second child; `sending` is in `s_send_sig`. -/
inductive Child₂
  | unborn | start
  | sending (msg : DaemonMsg)
  | acting | exited
  deriving DecidableEq

/-- The three processes, the bytes in the pipe, whether the first child has its end of the pipe
open, and whether the action has been run. -/
structure Forks where
  parent : Parent
  child₁ : Child₁
  child₂ : Child₂
  pipe : List DaemonMsg
  readEnd : Bool
  ran : Bool
  deriving DecidableEq

/-- The steps; those that are a system call with a flag succeed or not. -/
inductive Act
  | fork (ok : Bool) | wait
  | pipe (ok : Bool) | fork₂ (ok : Bool)
  | timeOut | pollError | poll | read (ok : Bool) | exit₁
  | callInit | sendSig (ok : Bool) | callAction
  deriving DecidableEq

def start : Forks := ⟨.start, .unborn, .unborn, [], false, false⟩

/-- The end of `s_wait_sig`, on what has been read. -/
def waitSig (msg : Option DaemonMsg) : ℤ := if msg = some .ok then 0 else -1

/-- The second child has not closed its end of the pipe. -/
def Child₂.Writing : Child₂ → Prop
  | .start | .sending _ => True
  | _ => False

/-- The second child after the initializer, which has failed if it returns -1. -/
def afterInit : DaemonEnd → Child₂
  | .null => .sending .ok
  | .returns rc => if rc = -1 then .sending .err else .sending .ok
  | .aborts => .exited

/-- The second child after `s_send_sig`. -/
def afterSig : DaemonMsg → Child₂
  | .ok => .acting
  | .err => .exited

instance (c : Child₂) : Decidable c.Writing := by
  unfold Child₂.Writing
  split <;> infer_instance

/-- One step of one of the processes. -/
def step (initializer action : DaemonEnd) : Act → Forks → Option Forks
  | .fork ok, s =>
    if s.parent ≠ .start then none
    else if ok = true then some { s with parent := .waiting, child₁ := .start }
    else some { s with parent := .returned (-1) }
  | .wait, s =>
    match s.parent, s.child₁ with
    | .waiting, .exited status => some { s with parent := .returned status }
    | _, _ => none
  | .pipe ok, s =>
    if s.child₁ ≠ .start then none
    else if ok = true then some { s with child₁ := .piped }
    else some { s with child₁ := .exited EXIT_FAILURE }
  | .fork₂ ok, s =>
    if s.child₁ ≠ .piped then none
    else if ok = true then some { s with child₁ := .polling, child₂ := .start, readEnd := true }
    else some { s with child₁ := .exited EXIT_FAILURE }
  -- the call of `poll` comes back when there is a byte or the other end is closed
  | .timeOut, s =>
    if s.child₁ = .polling ∧ s.pipe = [] ∧ s.child₂.Writing then
      some { s with child₁ := .leaving (-1) }
    else none
  | .pollError, s =>
    if s.child₁ = .polling then some { s with child₁ := .leaving (-1) } else none
  | .poll, s =>
    if s.child₁ = .polling ∧ (s.pipe ≠ [] ∨ ¬ s.child₂.Writing) then
      some { s with child₁ := .reading }
    else none
  | .read ok, s =>
    if s.child₁ ≠ .reading then none
    else if ok = true then
      some { s with
        child₁ := .leaving (waitSig s.pipe.head?), pipe := s.pipe.tail, readEnd := false }
    else some { s with child₁ := .leaving (-1), readEnd := false }
  | .exit₁, s =>
    match s.child₁ with
    | .leaving rc => some { s with
        child₁ := .exited (if rc ≠ 0 then EXIT_FAILURE else EXIT_SUCCESS), readEnd := false }
    | _ => none
  | .callInit, s =>
    if s.child₂ ≠ .start then none else some { s with child₂ := afterInit initializer }
  -- a byte can be written only while the other end is open
  | .sendSig ok, s =>
    match s.child₂ with
    | .sending msg =>
      if ok = false then some { s with child₂ := .exited }
      else if s.readEnd = true then
        some { s with child₂ := afterSig msg, pipe := s.pipe ++ [msg] }
      else none
    | _ => none
  | .callAction, s =>
    if s.child₂ ≠ .acting then none
    else some { s with child₂ := .exited, ran := s.ran || action ≠ .null }

/-- All processes but the parent have ended, and the parent has returned. -/
def Forks.Done (s : Forks) : Prop :=
  (∃ rc, s.parent = .returned rc) ∧ (s.child₁ = .unborn ∨ ∃ status, s.child₁ = .exited status) ∧
    (s.child₂ = .unborn ∨ s.child₂ = .exited)

/-- A system call fails. -/
def Act.Fails : Act → Prop
  | .fork ok | .pipe ok | .fork₂ ok | .read ok | .sendSig ok => ok = false
  | .pollError => True
  | _ => False

instance : DecidablePred Act.Fails := fun a => by
  unfold Act.Fails
  split <;> infer_instance

/-! ## What a run has come to -/

variable {initializer action : DaemonEnd} {as : List Act} {s s' : Forks} {a : Act}

/-- No system call has failed and the first child has not stopped waiting. -/
def Smooth (as : List Act) : Prop := (∀ a ∈ as, ¬ a.Fails) ∧ .timeOut ∉ as

/-- The same but for the byte that the second child writes. -/
def Waited (as : List Act) : Prop :=
  (∀ a ∈ as, a.Fails → a = .sendSig false) ∧ .timeOut ∉ as

/-- The initializer returns 0, or there is none. -/
def InitOk (initializer : DaemonEnd) : Prop := initializer = .null ∨ initializer = .returns 0

instance (initializer : DaemonEnd) : Decidable (InitOk initializer) :=
  inferInstanceAs (Decidable (_ ∨ _))

/-- The second child takes the initializer to have succeeded. -/
def Passes (initializer : DaemonEnd) : Prop := afterInit initializer = .sending .ok

/-- What the steps until now have left. -/
structure Inv (initializer : DaemonEnd) (as : List Act) (s : Forks) : Prop where
  fresh : s.parent = .start → as = [] ∧ s.child₁ = .unborn
  unborn : s.child₁ = .unborn → s.parent ≠ .waiting ∧ s.child₂ = .unborn ∧ s.ran = false ∧
    ∀ rc, s.parent = .returned rc → rc = -1 ∧ as = [.fork false]
  forked : s.child₁ ≠ .unborn → .fork false ∉ as
  returned : ∀ rc, s.parent = .returned rc → s.child₁ ≠ .unborn →
    ∃ status : ℕ, s.child₁ = .exited status ∧ rc = status
  young : s.child₁ = .start ∨ s.child₁ = .piped → Smooth as
  single : s.child₁ = .unborn ∨ s.child₁ = .start ∨ s.child₁ = .piped →
    s.child₂ = .unborn ∧ s.pipe = []
  waits : s.child₁ = .polling ∨ s.child₁ = .reading → Waited as
  quiet : s.child₂ = .unborn ∨ s.child₂.Writing → .sendSig false ∉ as ∧ s.pipe = []
  sends : ∀ msg, s.child₂ = .sending msg → .callInit ∈ as ∧ afterInit initializer = .sending msg
  sent : ∀ msg, msg ∈ s.pipe → s.pipe = [msg] ∧ .callInit ∈ as ∧
    afterInit initializer = .sending msg ∧ .sendSig false ∉ as
  closed : s.child₁ = .reading → s.pipe ≠ [] ∨ ¬ s.child₂.Writing
  silent : s.child₁ = .polling ∨ s.child₁ = .reading → s.pipe = [] → ¬ s.child₂.Writing →
    Smooth as → ¬ Passes initializer
  success : s.child₁ = .leaving 0 ∨ s.child₁ = .exited EXIT_SUCCESS →
    Smooth as ∧ .callInit ∈ as ∧ Passes initializer ∧ ¬ s.child₂.Writing
  failure : (∀ rc, s.child₁ = .leaving rc → rc ≠ 0 → Smooth as → ¬ Passes initializer) ∧
    ∀ status, s.child₁ = .exited status → status ≠ EXIT_SUCCESS → Smooth as → ¬ Passes initializer

theorem smooth_nil : Smooth [] := ⟨fun _ h => absurd h List.not_mem_nil, List.not_mem_nil⟩

theorem smooth_concat : Smooth (as ++ [a]) ↔ Smooth as ∧ ¬ a.Fails ∧ a ≠ .timeOut := by
  simp only [Smooth, List.mem_append, List.mem_singleton, not_or, or_imp, forall_and, forall_eq]
  tauto

theorem waited_concat :
    Waited (as ++ [a]) ↔ Waited as ∧ (a.Fails → a = .sendSig false) ∧ a ≠ .timeOut := by
  simp only [Waited, List.mem_append, List.mem_singleton, not_or, or_imp, forall_and, forall_eq]
  tauto

theorem waited_of_smooth (h : Smooth as) : Waited as :=
  ⟨fun b hb hfails => absurd hfails (h.1 b hb), h.2⟩

theorem smooth_of_waited (h : Waited as) (hsent : .sendSig false ∉ as) : Smooth as :=
  ⟨fun b hb hfails => hsent (h.1 b hb hfails ▸ hb), h.2⟩

theorem mem_concat_of_ne {b : Act} (h : a ≠ b) : b ∈ as ++ [a] ↔ b ∈ as := by
  rw [List.mem_append, List.mem_singleton, or_iff_left h.symm]

/-- A step that does not fail changes nothing in what is said of the steps. -/
theorem Inv.concat (inv : Inv initializer as s) (born : s.child₁ ≠ .unborn) (hfails : ¬ a.Fails)
    (htime : a ≠ .timeOut) : Inv initializer (as ++ [a]) s := by
  have hsmooth : Smooth (as ++ [a]) ↔ Smooth as := by
    rw [smooth_concat, and_iff_left ⟨hfails, htime⟩]
  have hwaited : Waited (as ++ [a]) ↔ Waited as := by
    rw [waited_concat, and_iff_left ⟨fun h => absurd h hfails, htime⟩]
  have hfork : a ≠ .fork false := by
    rintro rfl
    exact hfails rfl
  have hsend : a ≠ .sendSig false := by
    rintro rfl
    exact hfails rfl
  have hinit : .callInit ∈ as → .callInit ∈ as ++ [a] := List.mem_append_left [a]
  constructor
  case fresh => exact fun h => absurd (inv.fresh h).2 born
  case unborn => exact fun h => absurd h born
  case forked => exact fun h => mt (mem_concat_of_ne hfork).1 (inv.forked h)
  case young => exact fun h => hsmooth.2 (inv.young h)
  case waits => exact fun h => hwaited.2 (inv.waits h)
  case quiet => exact fun h => (inv.quiet h).imp_left (mt (mem_concat_of_ne hsend).1)
  case sends => exact fun msg h => (inv.sends msg h).imp_left hinit
  case sent =>
    intro msg h
    obtain ⟨hpipe, hcalled, hmsg, hsent⟩ := inv.sent msg h
    exact ⟨hpipe, hinit hcalled, hmsg, mt (mem_concat_of_ne hsend).1 hsent⟩
  case silent => exact fun h hpipe hw hs => inv.silent h hpipe hw (hsmooth.1 hs)
  case success =>
    intro h
    obtain ⟨hs, hcalled, hpasses⟩ := inv.success h
    exact ⟨hsmooth.2 hs, hinit hcalled, hpasses⟩
  case failure =>
    exact ⟨fun rc h hrc hs => inv.failure.1 rc h hrc (hsmooth.1 hs),
      fun status h hstatus hs => inv.failure.2 status h hstatus (hsmooth.1 hs)⟩
  all_goals first | exact inv.returned | exact inv.single | exact inv.closed

/-- The parent waits for the first child until it has ended. -/
theorem Inv.waiting (inv : Inv initializer as s) (born : s.child₁ ≠ .unborn)
    (running : ∀ status, s.child₁ ≠ .exited status) : s.parent = .waiting := by
  cases hparent : s.parent with
  | start => exact absurd (inv.fresh hparent).2 born
  | waiting => rfl
  | returned rc =>
    obtain ⟨status, hexited, -⟩ := inv.returned rc hparent born
    exact absurd hexited (running status)

/-- The first child ends early, after a step that has failed or when it has waited for too long. -/
theorem Inv.giveUp {c : Child₁} {readEnd : Bool} (inv : Inv initializer as s)
    (born : s.child₁ ≠ .unborn) (running : ∀ status, s.child₁ ≠ .exited status)
    (hc : c = .leaving (-1) ∨ c = .exited EXIT_FAILURE) (hfork : a ≠ .fork false)
    (hsend : a ≠ .sendSig false) (hrough : ¬ Smooth (as ++ [a])) :
    Inv initializer (as ++ [a]) { s with child₁ := c, readEnd := readEnd } := by
  have hinit : .callInit ∈ as → .callInit ∈ as ++ [a] := List.mem_append_left [a]
  constructor
  case fresh => exact fun h => absurd (inv.fresh h).2 born
  case forked => exact fun _ => mt (mem_concat_of_ne hfork).1 (inv.forked born)
  case returned => exact fun rc h => by cases (inv.waiting born running).symm.trans h
  case quiet => exact fun h => (inv.quiet h).imp_left (mt (mem_concat_of_ne hsend).1)
  case sends => exact fun msg h => (inv.sends msg h).imp_left hinit
  case sent =>
    intro msg h
    obtain ⟨hpipe, hcalled, hmsg, hsent⟩ := inv.sent msg h
    exact ⟨hpipe, hinit hcalled, hmsg, mt (mem_concat_of_ne hsend).1 hsent⟩
  case failure =>
    exact ⟨fun _ _ _ hs => absurd hs hrough, fun _ _ _ hs => absurd hs hrough⟩
  all_goals rcases hc with rfl | rfl <;> simp [EXIT_FAILURE, EXIT_SUCCESS]

/-- The second child is forked by the first one, which then waits for it. -/
theorem Inv.born_of_child₂ (inv : Inv initializer as s) (h : s.child₂ ≠ .unborn) :
    s.child₁ ≠ .unborn ∧ s.child₁ ≠ .start ∧ s.child₁ ≠ .piped :=
  ⟨fun h₁ => h (inv.single (.inl h₁)).1, fun h₁ => h (inv.single (.inr (.inl h₁))).1,
    fun h₁ => h (inv.single (.inr (.inr h₁))).1⟩

/-- What the first child reads, and what it knows by it. -/
theorem Inv.readable (inv : Inv initializer as s) (h : s.child₁ = .reading) :
    (s.pipe = [] ∧ (Smooth as → ¬ Passes initializer)) ∨
      ∃ msg, s.pipe = [msg] ∧ .callInit ∈ as ∧ afterInit initializer = .sending msg ∧ Smooth as ∧
        ¬ s.child₂.Writing := by
  rcases hpipe : s.pipe with _ | ⟨msg, rest⟩
  · have hnot : ¬ s.child₂.Writing := (inv.closed h).resolve_left (not_not.2 hpipe)
    exact .inl ⟨rfl, inv.silent (.inr h) hpipe hnot⟩
  · -- a byte in the pipe is all there is, and it has been sent without an error
    obtain ⟨hone, hcalled, hmsg, hsent⟩ := inv.sent msg (by simp [hpipe])
    refine .inr ⟨msg, hpipe ▸ hone, hcalled, hmsg, smooth_of_waited (inv.waits (.inr h)) hsent, ?_⟩
    intro hwriting
    cases hpipe.symm.trans (inv.quiet (.inr hwriting)).2

theorem inv_start : Inv initializer [] start := by
  constructor <;> simp [start, Child₂.Writing]

/-! ### The parent -/

theorem inv_fork {ok : Bool} (inv : Inv initializer as s)
    (h : step initializer action (.fork ok) s = some s') :
    Inv initializer (as ++ [.fork ok]) s' := by
  simp only [step] at h
  split_ifs at h with hstart hok
  all_goals
    obtain rfl := Option.some.inj h
    obtain ⟨rfl, hunborn⟩ := inv.fresh (not_not.1 hstart)
    obtain ⟨-, hchild, hran, -⟩ := inv.unborn hunborn
    obtain ⟨-, hpipe⟩ := inv.single (.inl hunborn)
    constructor <;> grind [smooth_nil, smooth_concat, waited_concat, Act.Fails]

theorem inv_wait (inv : Inv initializer as s)
    (h : step initializer action .wait s = some s') : Inv initializer (as ++ [.wait]) s' := by
  simp only [step] at h
  split at h
  next status hparent hchild =>
    obtain rfl := Option.some.inj h
    have inv' : Inv initializer (as ++ [.wait]) s := inv.concat (by simp [hchild]) id (by decide)
    exact { inv' with
      fresh := nofun
      unborn := fun h => by cases hchild.symm.trans h
      returned := by
        rintro _ ⟨⟩ -
        exact ⟨status, hchild, rfl⟩ }
  · cases h

/-! ### The first child -/

theorem inv_pipe {ok : Bool} (inv : Inv initializer as s)
    (h : step initializer action (.pipe ok) s = some s') :
    Inv initializer (as ++ [.pipe ok]) s' := by
  simp only [step] at h
  split_ifs at h with hstart hok
  all_goals
    rw [not_not] at hstart
    have born : s.child₁ ≠ .unborn := by simp [hstart]
    have running : ∀ status, s.child₁ ≠ .exited status := by simp [hstart]
    have hparent := inv.waiting born running
    obtain rfl := Option.some.inj h
  · have inv' : Inv initializer (as ++ [.pipe ok]) s :=
      inv.concat born (by simp [Act.Fails, hok]) (by simp)
    exact { inv' with
      fresh := by simp [hparent]
      unborn := nofun
      forked := fun _ => inv'.forked born
      returned := by simp [hparent]
      young := fun _ => inv'.young (.inl hstart)
      single := fun _ => inv'.single (.inr (.inl hstart))
      waits := by simp
      closed := nofun
      silent := by simp
      success := by simp
      failure := by simp }
  · exact inv.giveUp born running (.inr rfl) nofun nofun (by simp [smooth_concat, Act.Fails, hok])

theorem inv_fork₂ {ok : Bool} (inv : Inv initializer as s)
    (h : step initializer action (.fork₂ ok) s = some s') :
    Inv initializer (as ++ [.fork₂ ok]) s' := by
  simp only [step] at h
  split_ifs at h with hpiped hok
  all_goals
    rw [not_not] at hpiped
    have born : s.child₁ ≠ .unborn := by simp [hpiped]
    have running : ∀ status, s.child₁ ≠ .exited status := by simp [hpiped]
    have hparent := inv.waiting born running
    obtain rfl := Option.some.inj h
  · have inv' : Inv initializer (as ++ [.fork₂ ok]) s :=
      inv.concat born (by simp [Act.Fails, hok]) (by simp)
    have hsmooth := inv'.young (.inr hpiped)
    obtain ⟨-, hpipe⟩ := inv'.single (.inr (.inr hpiped))
    exact { inv' with
      fresh := by simp [hparent]
      unborn := nofun
      forked := fun _ => inv'.forked born
      returned := by simp [hparent]
      young := by simp
      single := by simp
      waits := fun _ => waited_of_smooth hsmooth
      quiet := fun _ => ⟨fun hsent => hsmooth.1 _ hsent rfl, hpipe⟩
      sends := nofun
      closed := nofun
      silent := fun _ _ h => absurd trivial h
      success := by simp
      failure := by simp }
  · exact inv.giveUp born running (.inr rfl) nofun nofun (by simp [smooth_concat, Act.Fails, hok])

/-- What ends the wait without a message. -/
theorem inv_pollEnds (ha : a = .timeOut ∨ a = .pollError) (inv : Inv initializer as s)
    (h : step initializer action a s = some s') : Inv initializer (as ++ [a]) s' := by
  rcases ha with rfl | rfl
  all_goals
    simp only [step] at h
    split_ifs at h with hpolling
    obtain rfl := Option.some.inj h
    exact inv.giveUp (by simp [hpolling]) (by simp [hpolling]) (.inl rfl) nofun nofun
      (by simp [smooth_concat, Act.Fails])

theorem inv_poll (inv : Inv initializer as s)
    (h : step initializer action .poll s = some s') : Inv initializer (as ++ [.poll]) s' := by
  simp only [step] at h
  split_ifs at h with hready
  obtain ⟨hpolling, hready⟩ := hready
  have born : s.child₁ ≠ .unborn := by simp [hpolling]
  have hparent := inv.waiting born (by simp [hpolling])
  obtain rfl := Option.some.inj h
  have inv' : Inv initializer (as ++ [.poll]) s := inv.concat born id (by decide)
  exact { inv' with
    fresh := by simp [hparent]
    unborn := nofun
    forked := fun _ => inv'.forked born
    returned := by simp [hparent]
    young := by simp
    single := by simp
    waits := fun _ => inv'.waits (.inl hpolling)
    closed := fun _ => hready
    silent := fun _ => inv'.silent (.inl hpolling)
    success := by simp
    failure := by simp }

theorem inv_read {ok : Bool} (inv : Inv initializer as s)
    (h : step initializer action (.read ok) s = some s') :
    Inv initializer (as ++ [.read ok]) s' := by
  simp only [step] at h
  split_ifs at h with hreading hok
  all_goals
    rw [not_not] at hreading
    have born : s.child₁ ≠ .unborn := by simp [hreading]
    have running : ∀ status, s.child₁ ≠ .exited status := by simp [hreading]
    obtain rfl := Option.some.inj h
  · have hparent := inv.waiting born running
    have inv' : Inv initializer (as ++ [.read ok]) s :=
      inv.concat born (by simp [Act.Fails, hok]) (by simp)
    have htail : s.pipe.tail = [] := by
      rcases inv'.readable hreading with ⟨hpipe, -⟩ | ⟨msg, hpipe, -⟩ <;> rw [hpipe] <;> rfl
    exact { inv' with
      fresh := by simp [hparent]
      unborn := nofun
      forked := fun _ => inv'.forked born
      returned := by simp [hparent]
      young := by simp
      single := by simp
      waits := by simp
      quiet := fun h => ⟨(inv'.quiet h).1, htail⟩
      sent := by simp [htail]
      closed := nofun
      silent := by simp
      success := by
        rintro (h | h)
        · rcases inv'.readable hreading with
            ⟨hpipe, -⟩ | ⟨msg, hpipe, hcalled, hmsg, hsmooth, hnot⟩
          · simp [hpipe, waitSig] at h
          · cases msg with
            | ok => exact ⟨hsmooth, hcalled, hmsg, hnot⟩
            | err => simp [hpipe, waitSig] at h
        · cases h
      failure := by
        refine ⟨fun rc h hrc hs => ?_, nofun⟩
        rcases inv'.readable hreading with ⟨-, hinit⟩ | ⟨msg, hpipe, -, hmsg, -⟩
        · exact hinit hs
        · cases msg with
          | ok => exact absurd (Child₁.leaving.inj h).symm (by simpa [hpipe, waitSig] using hrc)
          | err =>
            intro hpasses
            cases hmsg.symm.trans hpasses }
  · exact inv.giveUp born running (.inl rfl) nofun nofun (by simp [smooth_concat, Act.Fails, hok])

theorem inv_exit₁ (inv : Inv initializer as s)
    (h : step initializer action .exit₁ s = some s') : Inv initializer (as ++ [.exit₁]) s' := by
  simp only [step] at h
  split at h
  next rc hleaving =>
    obtain rfl := Option.some.inj h
    have born : s.child₁ ≠ .unborn := by simp [hleaving]
    have hparent := inv.waiting born (by simp [hleaving])
    have inv' : Inv initializer (as ++ [.exit₁]) s := inv.concat born id (by decide)
    exact { inv' with
      fresh := by simp [hparent]
      unborn := nofun
      forked := fun _ => inv'.forked born
      returned := by simp [hparent]
      young := by simp
      single := by simp
      waits := by simp
      closed := nofun
      silent := by simp
      success := by
        rintro (h | h)
        · cases h
        · have hrc : rc = 0 := by
            by_contra hne
            rw [if_pos hne] at h
            cases h
          exact inv'.success (.inl (hrc ▸ hleaving))
      failure := by
        refine ⟨nofun, fun status h hstatus => ?_⟩
        refine inv'.failure.1 rc hleaving ?_
        rintro rfl
        rw [if_neg (by simp)] at h
        cases h
        exact hstatus rfl }
  · cases h

/-! ### The second child -/

theorem inv_callInit (inv : Inv initializer as s)
    (h : step initializer action .callInit s = some s') :
    Inv initializer (as ++ [.callInit]) s' := by
  simp only [step] at h
  split_ifs at h with hstart
  rw [not_not] at hstart
  obtain rfl := Option.some.inj h
  obtain ⟨hborn, hpast, hpast'⟩ := inv.born_of_child₂ (by simp [hstart])
  have inv' : Inv initializer (as ++ [.callInit]) s := inv.concat hborn id (by decide)
  have hwriting : s.child₂.Writing := by simp [hstart, Child₂.Writing]
  exact { inv' with
    unborn := fun h => absurd h hborn
    single := by simp [hborn, hpast, hpast']
    quiet := fun _ => inv'.quiet (.inr hwriting)
    sends := fun msg h => ⟨by simp, h⟩
    closed := fun h => (inv'.closed h).imp_right (absurd hwriting)
    silent := by
      intro _ _ hnot _ hpasses
      refine hnot ?_
      dsimp only
      rw [hpasses]
      trivial
    success := fun h => absurd hwriting (inv'.success h).2.2.2 }

theorem inv_sendSig {ok : Bool} (inv : Inv initializer as s)
    (h : step initializer action (.sendSig ok) s = some s') :
    Inv initializer (as ++ [.sendSig ok]) s' := by
  simp only [step] at h
  split at h
  next msg hsending =>
    obtain ⟨hborn, hpast, hpast'⟩ := inv.born_of_child₂ (by simp [hsending])
    have hwriting : s.child₂.Writing := by simp [hsending, Child₂.Writing]
    obtain ⟨hnone, hpipe⟩ := inv.quiet (.inr hwriting)
    obtain ⟨hcalled, hmsg⟩ := inv.sends msg hsending
    split_ifs at h with hok hread
    · obtain rfl := Option.some.inj h
      subst hok
      have hfork : Act.sendSig false ≠ .fork false := nofun
      have hrough : ¬ Smooth (as ++ [.sendSig false]) := by simp [smooth_concat, Act.Fails]
      exact {
        fresh := fun h => absurd (inv.fresh h).2 hborn
        unborn := fun h => absurd h hborn
        forked := fun h => mt (mem_concat_of_ne hfork).1 (inv.forked h)
        returned := inv.returned
        young := by simp [hpast, hpast']
        single := by simp [hborn, hpast, hpast']
        waits := fun h => waited_concat.2 ⟨inv.waits h, fun _ => rfl, nofun⟩
        quiet := by rintro (h | h) <;> cases h
        sends := nofun
        sent := by simp [hpipe]
        closed := fun _ => .inr id
        silent := fun _ _ _ hs => absurd hs hrough
        success := fun h => absurd hwriting (inv.success h).2.2.2
        failure := ⟨fun _ _ _ hs => absurd hs hrough, fun _ _ _ hs => absurd hs hrough⟩ }
    · obtain rfl := Option.some.inj h
      have inv' : Inv initializer (as ++ [.sendSig ok]) s :=
        inv.concat hborn (by simpa [Act.Fails] using hok) (by simp)
      have hnot : ¬ (afterSig msg).Writing := by
        cases msg <;> exact id
      exact { inv' with
        unborn := fun h => absurd h hborn
        single := by simp [hborn, hpast, hpast']
        quiet := by
          rintro (h | h)
          · cases msg <;> cases h
          · exact absurd h hnot
        sends := fun msg' h => by cases msg <;> cases h
        sent := by
          intro msg' h
          rw [hpipe, List.nil_append, List.mem_singleton] at h
          subst h
          rw [hpipe]
          exact ⟨rfl, (inv'.sends _ hsending).1, hmsg, (inv'.quiet (.inr hwriting)).1⟩
        closed := fun _ => .inr hnot
        silent := by simp
        success := fun h => absurd hwriting (inv'.success h).2.2.2 }
  · cases h

theorem inv_callAction (inv : Inv initializer as s)
    (h : step initializer action .callAction s = some s') :
    Inv initializer (as ++ [.callAction]) s' := by
  simp only [step] at h
  split_ifs at h with hacting
  rw [not_not] at hacting
  obtain rfl := Option.some.inj h
  obtain ⟨hborn, hpast, hpast'⟩ := inv.born_of_child₂ (by simp [hacting])
  have inv' : Inv initializer (as ++ [.callAction]) s := inv.concat hborn id (by decide)
  have hnot : ¬ s.child₂.Writing := by simp [hacting, Child₂.Writing]
  exact { inv' with
    unborn := fun h => absurd h hborn
    single := by simp [hborn, hpast, hpast']
    quiet := by rintro (h | h) <;> cases h
    sends := nofun
    closed := fun _ => .inr id
    silent := fun h hpipe _ => inv'.silent h hpipe hnot
    success := fun h => (inv'.success h).imp_right (And.imp_right (And.imp_right fun _ => id)) }

theorem inv_step (inv : Inv initializer as s) (h : step initializer action a s = some s') :
    Inv initializer (as ++ [a]) s' := by
  cases a with
  | fork ok => exact inv_fork inv h
  | wait => exact inv_wait inv h
  | pipe ok => exact inv_pipe inv h
  | fork₂ ok => exact inv_fork₂ inv h
  | timeOut => exact inv_pollEnds (.inl rfl) inv h
  | pollError => exact inv_pollEnds (.inr rfl) inv h
  | poll => exact inv_poll inv h
  | read ok => exact inv_read inv h
  | exit₁ => exact inv_exit₁ inv h
  | callInit => exact inv_callInit inv h
  | sendSig ok => exact inv_sendSig inv h
  | callAction => exact inv_callAction inv h

theorem inv_run (h : run (step initializer action) as start = some s) : Inv initializer as s := by
  have along : Along (step initializer action) (fun _ _ => True) as start :=
    along_of_forall (fun _ _ _ => trivial) start
  have keep : ∀ as a s s', Inv initializer as s → True → step initializer action a s = some s' →
      Inv initializer (as ++ [a]) s' := fun _ _ _ _ inv _ hstep => inv_step inv hstep
  exact trace_of_along keep inv_start along h

/-! ## Every run comes to an end -/

def Parent.left : Parent → ℕ
  | .start => 20
  | .waiting => 1
  | .returned _ => 0

def Child₁.left : Child₁ → ℕ
  | .unborn | .exited _ => 0
  | .start => 10
  | .piped => 9
  | .polling => 4
  | .reading => 3
  | .leaving _ => 2

def Child₂.left : Child₂ → ℕ
  | .unborn | .exited => 0
  | .start => 4
  | .sending _ => 2
  | .acting => 1

/-- A bound for the steps that are still to be taken. -/
def Forks.left (s : Forks) : ℕ := s.parent.left + s.child₁.left + s.child₂.left

theorem afterInit_left (initializer : DaemonEnd) : (afterInit initializer).left ≤ 2 := by
  unfold afterInit
  split
  · exact le_refl 2
  · split_ifs <;> exact le_refl 2
  · exact Nat.zero_le 2

theorem afterSig_left (msg : DaemonMsg) : (afterSig msg).left ≤ 1 := by
  cases msg
  · exact le_refl 1
  · exact Nat.zero_le 1

theorem left_lt (inv : Inv initializer as s) (h : step initializer action a s = some s') :
    s'.left < s.left := by
  have hinit := afterInit_left initializer
  have hsig := afterSig_left
  have hfresh := inv.fresh
  have hsingle := inv.single
  unfold Forks.left
  cases a <;> simp only [step] at h <;> grind [Parent.left, Child₁.left, Child₂.left]

/-- A process that has not ended can take a step. -/
theorem exists_step (action : DaemonEnd) (inv : Inv initializer as s) (hdone : ¬ s.Done) :
    ∃ a s', step initializer action a s = some s' := by
  cases hsecond : s.child₂ with
  | start => exact ⟨.callInit, _, by rw [step, if_neg (not_not.2 hsecond)]⟩
  | sending msg => exact ⟨.sendSig false, _, by simp only [step, hsecond, if_true]; rfl⟩
  | acting => exact ⟨.callAction, _, by rw [step, if_neg (not_not.2 hsecond)]⟩
  | unborn | exited =>
    cases hfirst : s.child₁ with
    | start => exact ⟨.pipe false, _, by simp only [step, hfirst]; rfl⟩
    | piped => exact ⟨.fork₂ false, _, by simp only [step, hfirst]; rfl⟩
    | polling => exact ⟨.pollError, _, by rw [step, if_pos hfirst]⟩
    | reading => exact ⟨.read false, _, by simp only [step, hfirst]; rfl⟩
    | leaving rc => exact ⟨.exit₁, _, by simp only [step, hfirst]; rfl⟩
    | unborn =>
      cases hparent : s.parent with
      | start => exact ⟨.fork false, _, by simp only [step, hparent]; rfl⟩
      | waiting => exact absurd hparent (inv.unborn hfirst).1
      | returned rc => exact absurd ⟨⟨rc, hparent⟩, .inl hfirst, by simp [hsecond]⟩ hdone
    | exited status =>
      cases hparent : s.parent with
      | start => cases hfirst.symm.trans (inv.fresh hparent).2
      | waiting => exact ⟨.wait, _, by simp only [step, hparent, hfirst]; rfl⟩
      | returned rc => exact absurd ⟨⟨rc, hparent⟩, .inr ⟨status, hfirst⟩, by simp [hsecond]⟩ hdone

theorem completes_of_inv (action : DaemonEnd) (inv : Inv initializer as s) :
    ∃ bs s', run (step initializer action) bs s = some s' ∧ s'.Done := by
  induction hn : s.left using Nat.strong_induction_on generalizing as s with
  | _ n ih =>
    by_cases hdone : s.Done
    · exact ⟨[], s, rfl, hdone⟩
    · obtain ⟨a, s₁, hstep⟩ := exists_step action inv hdone
      obtain ⟨bs, s', hrun, hdone'⟩ :=
        ih s₁.left (hn ▸ left_lt inv hstep) (inv_step inv hstep) rfl
      exact ⟨a :: bs, s', by rw [run, hstep]; exact hrun, hdone'⟩

/-- However the steps have been taken until now, they come to an end, with the parent returned. -/
theorem completes (action : DaemonEnd) (h : run (step initializer action) as start = some s) :
    ∃ bs f, run (step initializer action) (as ++ bs) start = some f ∧ f.Done := by
  obtain ⟨bs, f, hrun, hdone⟩ := completes_of_inv action (inv_run h)
  exact ⟨bs, f, by rw [run_append, h]; exact hrun, hdone⟩

/-! ## What the parent returns -/

/-- The initializer has returned 0, or there is none, while the first child was waiting. -/
def InTime (initializer : DaemonEnd) (as : List Act) : Prop :=
  .callInit ∈ as ∧ InitOk initializer ∧ .timeOut ∉ as

/-- The parent returns 0 just if the initializer has returned 0 in time, and -1 otherwise; the
action is run only in the first case. -/
structure ReportsInit (initializer : DaemonEnd) (as : List Act) (s : Forks) : Prop where
  success : s.parent = .returned 0 ↔ InTime initializer as
  error : ¬ InTime initializer as → s.parent = .returned (-1)
  action : s.ran = true → InTime initializer as

theorem passes_of_initOk (h : InitOk initializer) : Passes initializer := by
  rcases h with rfl | rfl <;> rfl

/-- The parent returns what it should just if it can not fork, or if nothing at all fails. -/
theorem reportsInit_iff_of_done (h : run (step initializer action) as start = some s)
    (done : s.Done) : ReportsInit initializer as s ↔
      .fork false ∈ as ∨ (Smooth as ∧ InitOk initializer) := by
  have inv := inv_run h
  obtain ⟨⟨rc, hreturned⟩, hfirst, -⟩ := done
  by_cases hunborn : s.child₁ = .unborn
  · obtain ⟨-, -, hran, hrc⟩ := inv.unborn hunborn
    obtain ⟨rfl, rfl⟩ := hrc rc hreturned
    have hlate : ¬ InTime initializer [.fork false] := fun hin => absurd hin.1 (by decide)
    refine iff_of_true ⟨?_, fun _ => hreturned, ?_⟩ (.inl (by decide))
    · exact iff_of_false (by rw [hreturned]; decide) hlate
    · intro hacted
      rw [hran] at hacted
      cases hacted
  · have hforked := inv.forked hunborn
    obtain ⟨status, hexited, rfl⟩ := inv.returned rc hreturned hunborn
    rw [or_iff_right hforked]
    by_cases hstatus : status = EXIT_SUCCESS
    · subst hstatus
      obtain ⟨hsmooth, hinit, -, -⟩ := inv.success (.inr hexited)
      rw [and_iff_right hsmooth]
      constructor
      · intro hreports
        exact (hreports.success.1 hreturned).2.1
      · intro hok
        have hin : InTime initializer as := ⟨hinit, hok, hsmooth.2⟩
        exact ⟨iff_of_true hreturned hin, fun hlate => absurd hin hlate, fun _ => hin⟩
    · refine iff_of_false ?_ fun hclean => ?_
      · intro hreports
        have hlate : ¬ InTime initializer as := by
          rw [← hreports.success, hreturned, Parent.returned.injEq]
          exact_mod_cast hstatus
        have herror := hreturned.symm.trans (hreports.error hlate)
        rw [Parent.returned.injEq] at herror
        omega
      · exact inv.failure.2 status hexited hstatus hclean.1 (passes_of_initOk hclean.2)

end ForkAndRun

/-! ## Conversions in the background -/

open Asserting ForkAndRun

/-- `TES_CAP_REQ_*`. -/
def CapStatus.code : CapStatus → ℤ
  | .ok => 0
  | .einv => 1
  | .eabort => 2
  | .eperm => 3
  | .efail => 4
  | .ewrt => 5
  | .econv => 6
  | .efin => 7

variable {σ : Type} {h5 : H5 σ} {creq : ConvReq} {s : σ} {as : List Act} {f : Forks}

/-- What `hdf5_conv` gives `fork_and_run`. -/
def ConvReq.data (creq : ConvReq) : CreqData := ⟨creq, creq.dsets.getD [], -1, -1⟩

/-- How the call of `s_hdf5_init` ends in the second child. -/
def H5.initEnd (h5 : H5 σ) (creq : ConvReq) (s : σ) : DaemonEnd :=
  match h5.hdf5Init creq.data s with
  | some ((status, _), _) => .returns status.code
  | none => .aborts

/-- `fork_and_run` has returned what the parent does in this run, with `s_hdf5_init` as the
initializer. -/
structure Forked (h5 : H5 σ) (creq : ConvReq) (s : σ) (as : List Act) (f : Forks) : Prop where
  run : ∃ action, Runs.run (step (h5.initEnd creq s) action) as start = some f
  done : f.Done
  returned : f.parent = .returned (h5.forkAndRun creq.data s).1

/-- `hdf5_conv` returns, and that all is well only if `s_hdf5_init` has returned so in the child. -/
def ConvReportsInit (h5 : H5 σ) (creq : ConvReq) (s : σ) (as : List Act) : Prop :=
  ∃ status ddescs s', h5.hdf5Conv (some creq) s = some ((status, ddescs), s') ∧
    (status = .ok → .callInit ∈ as ∧ ∃ data s₁, h5.hdf5Init creq.data s = some ((.ok, data), s₁))

theorem initEnd_ok_iff : h5.initEnd creq s = .returns 0 ↔
    ∃ data s₁, h5.hdf5Init creq.data s = some ((.ok, data), s₁) := by
  unfold H5.initEnd
  rcases h5.hdf5Init creq.data s with _ | ⟨⟨status, data⟩, s₁⟩
  · simp
  · cases status <;> simp [CapStatus.code]

/-- Only that the parent can not fork is an error. -/
theorem hdf5Conv_async (h5 : H5 σ) (s : σ) (valid : creq.Valid) (async : creq.async = true) :
    ∃ ddescs s', h5.hdf5Conv (some creq) s =
      some ((if (h5.forkAndRun creq.data s).1 = -1 then .efail else .ok, ddescs), s') := by
  obtain ⟨ddescs, s', hunmap, -⟩ :=
    H5.returns_unmap h5 creq.data.dsets (h5.forkAndRun creq.data s).2
  refine ⟨ddescs, s', ?_⟩
  rw [H5.hdf5Conv]
  dsimp only
  rw [if_neg (not_not.2 valid), if_pos async]
  refine bind_eq_some.2 ⟨_, _, rfl, bind_eq_some.2 ⟨ddescs, s', hunmap, rfl⟩⟩

theorem returned_error_iff (forked : Forked h5 creq s as f) :
    (h5.forkAndRun creq.data s).1 = -1 ↔ .fork false ∈ as := by
  obtain ⟨⟨action, hrun⟩, -, hreturned⟩ := forked
  have inv := inv_run hrun
  by_cases hunborn : f.child₁ = .unborn
  · obtain ⟨-, -, -, hrc⟩ := inv.unborn hunborn
    obtain ⟨herror, rfl⟩ := hrc _ hreturned
    exact iff_of_true herror (by decide)
  · obtain ⟨status, -, hrc⟩ := inv.returned _ hreturned hunborn
    exact iff_of_false (by omega) (inv.forked hunborn)

theorem convReportsInit_iff (valid : creq.Valid) (async : creq.async = true)
    (forked : Forked h5 creq s as f) : ConvReportsInit h5 creq s as ↔
      .fork false ∈ as ∨ (.callInit ∈ as ∧ h5.initEnd creq s = .returns 0) := by
  obtain ⟨ddescs, s', hconv⟩ := hdf5Conv_async h5 s valid async
  rw [initEnd_ok_iff, ← returned_error_iff forked]
  by_cases hrc : (h5.forkAndRun creq.data s).1 = -1
  · rw [if_pos hrc] at hconv
    exact iff_of_true ⟨.efail, ddescs, s', hconv, fun h => by cases h⟩ (.inl hrc)
  · rw [if_neg hrc] at hconv
    rw [or_iff_right hrc]
    constructor
    · rintro ⟨status, ddescs', s'', hconv', hok⟩
      cases hconv.symm.trans hconv'
      exact hok rfl
    · exact fun hok => ⟨.ok, ddescs, s', hconv, fun _ => hok⟩

/-- Every run of `fork_and_run` can be carried on until it is over.  Then the parent has returned
what it should just if the first fork failed, or else no system call failed, the wait did not time
out and the initializer returned 0.  A conversion in the background says that all is well only if the
initialization does, just if the first fork fails or the initialization is all right. -/
theorem reports_init_iff :
    (∀ initializer action as s, run (step initializer action) as start = some s →
      ∃ bs f, run (step initializer action) (as ++ bs) start = some f ∧ f.Done) ∧
    (∀ initializer action as f, run (step initializer action) as start = some f → f.Done →
      (ReportsInit initializer as f ↔ .fork false ∈ as ∨ (Smooth as ∧ InitOk initializer))) ∧
    ∀ (h5 : H5 σ) (creq : ConvReq) s as f, creq.Valid → creq.async = true →
      Forked h5 creq s as f → (ConvReportsInit h5 creq s as ↔
        .fork false ∈ as ∨ (.callInit ∈ as ∧ h5.initEnd creq s = .returns 0)) :=
  ⟨fun _ action _ _ => completes action, fun _ _ _ _ => reportsInit_iff_of_done,
    fun _ _ _ _ _ => convReportsInit_iff⟩

/-- A run in which nothing fails. -/
def smoothRun : List Act :=
  [.fork true, .pipe true, .fork₂ true, .callInit, .sendSig true, .poll, .read true, .exit₁, .wait,
    .callAction]

/-- A conversion in the background of one dataset. -/
def oneDsetAsync : ConvReq := { oneDset with async := true }

/-- The library without the data file. -/
def noFile : H5 Unit := { h5Of ⟨1, Int.one_ne_zero⟩ with openFd := fun _ s => (none, s) }

theorem reports_init_iff_one :
    ReportsInit (.returns 0) smoothRun ⟨.returned 0, .exited 0, .exited, [], false, true⟩ ∧
      ConvReportsInit (h5Of ⟨1, by decide⟩) oneDsetAsync () smoothRun := by
  obtain ⟨-, hfork, hconv⟩ := @reports_init_iff Unit
  have hdone : Forks.Done ⟨.returned 0, .exited 0, .exited, [], false, true⟩ :=
    ⟨⟨0, rfl⟩, .inr ⟨0, rfl⟩, .inr rfl⟩
  constructor
  · refine (hfork (.returns 0) (.returns 0) smoothRun _ rfl hdone).2 (.inr ⟨⟨?_, ?_⟩, .inr rfl⟩)
    · decide
    · decide
  · refine (hconv _ oneDsetAsync () smoothRun _ (by decide) rfl ⟨⟨.returns 0, rfl⟩, hdone, rfl⟩).2 ?_
    exact .inr ⟨by decide, rfl⟩

/-- The data file of a conversion in the background is missing: the initialization fails with a
positive status, which passes for success, and the action is run. -/
theorem not_reports_init :
    (¬ ∀ initializer action as f, run (step initializer action) as start = some f → f.Done →
      ReportsInit initializer as f) ∧
    ¬ ∀ (h5 : H5 Unit) (creq : ConvReq) s as f, creq.Valid → creq.async = true →
      Forked h5 creq s as f → ConvReportsInit h5 creq s as := by
  have hdone : Forks.Done ⟨.returned 0, .exited 0, .exited, [], false, true⟩ :=
    ⟨⟨0, rfl⟩, .inr ⟨0, rfl⟩, .inr rfl⟩
  constructor
  · intro h
    have hreports := h (.returns CapStatus.efail.code) (.returns 0) smoothRun _ rfl hdone
    obtain ⟨-, hok, -⟩ := hreports.action rfl
    exact absurd hok (by decide)
  · intro h
    have hforked : Forked noFile oneDsetAsync () smoothRun
        ⟨.returned 0, .exited 0, .exited, [], false, true⟩ := ⟨⟨.returns 0, rfl⟩, hdone, rfl⟩
    obtain ⟨status, ddescs, s', hconv, hok⟩ :=
      h noFile oneDsetAsync () smoothRun _ (by decide) rfl hforked
    have hresult : noFile.hdf5Conv (some oneDsetAsync) () = some ((.ok, _), ()) := rfl
    cases hresult.symm.trans hconv
    obtain ⟨-, data, s₁, hinit⟩ := hok rfl
    have hfails : noFile.hdf5Init oneDsetAsync.data () = some ((.efail, _), ()) := rfl
    cases hfails.symm.trans hinit

end Tesd
