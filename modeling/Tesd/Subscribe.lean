import Tesd.Jitter
import Tesd.Lib.Runs

/-!
# Subscriptions

`s_sub_hn`: a task that publishes is activated for its first subscriber and deactivated after its
last one.  The handler goes by the number of subscriptions alone, and not by whether one was added
or removed.
-/

namespace Tesd

/-- The functions of a task that publishes: its data can always be prepared for an activation, and
its packet handler never returns `TASK_SLEEP`. -/
structure Publisher (δ : Type) where
  pktHn : PktHandler δ
  dataWakeup : δ → Bool × δ
  wakes : ∀ data, (dataWakeup data).1 = true
  awake : ∀ v pkt flen missed err, (pktHn v pkt flen missed err).1 ≠ .sleep

/-- A task with an XPUB frontend that has `autosleep` set, and the frontend's `nsubs`. -/
structure SubTask (nr : ℕ) (δ : Type) where
  task : Task nr δ
  nsubs : ℕ

/-- What `s_sub_hn` calls. -/
inductive SubCall
  | activate | deactivate
  deriving DecidableEq, Repr

variable {nr : ℕ} {δ : Type}

def Publisher.hooks (pub : Publisher δ) (nr : ℕ) : Hooks nr δ := pub.pktHn.hooks nr pub.dataWakeup

namespace SubTask

/-- The end of `s_sub_hn`, with what it calls.  The frontends of the task have no `automute`. -/
def settle (pub : Publisher δ) (rings : Fin nr → Ring) (self : SubTask nr δ) :
    List SubCall × SubTask nr δ :=
  if self.nsubs = 1 then
    ([.activate], { self with task := (self.task.activate (pub.hooks nr) rings).2 })
  else if self.nsubs = 0 then ([.deactivate], { self with task := (self.task.deactivate true).2 })
  else ([], self)

/-- `s_sub_hn`, given the frames of the message, with what it calls. -/
def subHn (pub : Publisher δ) (rings : Fin nr → Ring) (msg : List (List UInt8))
    (self : SubTask nr δ) : List SubCall × SubTask nr δ :=
  match msg with
  | [frame] =>
    -- the frame as a string ends with a zero
    let stat := frame.headD 0
    if stat = 0 then
      { self with nsubs := (((self.nsubs : ℤ) - 1) % 2 ^ 32).toNat }.settle pub rings
    else if stat = 1 then { self with nsubs := (self.nsubs + 1) % 2 ^ 32 }.settle pub rings
    else ([], self)
  | _ => ([], self)

end SubTask

/-- What happens to a task that publishes: a subscription or its end is announced, or the
coordinator wakes it up.  The rings are those at the time. -/
inductive SubEvent (nr : ℕ)
  | subscribe (rings : Fin nr → Ring) (topic : List UInt8)
  | unsubscribe (rings : Fin nr → Ring) (topic : List UInt8)
  | wakeup (rings : Fin nr → Ring) (fuel : ℕ)

/-- The message of an event, if there is one, with the rings. -/
def SubEvent.message? : SubEvent nr → Option ((Fin nr → Ring) × List (List UInt8))
  | .subscribe rings topic => some (rings, [1 :: topic])
  | .unsubscribe rings topic => some (rings, [0 :: topic])
  | .wakeup _ _ => none

/-- The loop of the task ends when a handler returns `-1`. -/
def subStep (pub : Publisher δ) (e : SubEvent nr) (self : SubTask nr δ) : Option (SubTask nr δ) :=
  match e with
  | .subscribe rings topic => some (self.subHn pub rings [1 :: topic]).2
  | .unsubscribe rings topic => some (self.subHn pub rings [0 :: topic]).2
  | .wakeup rings fuel =>
    match self.task.sigHn (pub.hooks nr) rings true fuel .wakeup with
    | some (0, task, _) => some { self with task := task }
    | _ => none

/-- There are never more ends of subscriptions than subscriptions, of which there are `n` so far. -/
def Balanced : ℕ → List (SubEvent nr) → Prop
  | _, [] => True
  | n, .subscribe _ _ :: evs => Balanced (n + 1) evs
  | n, .unsubscribe _ _ :: evs => 0 < n ∧ Balanced (n - 1) evs
  | n, .wakeup _ _ :: evs => Balanced n evs

/-- What `s_sub_hn` calls when the number of subscriptions goes from `before` to `after`. -/
def expectedCalls (before after : ℕ) : List SubCall :=
  if before = 0 ∧ after = 1 then [.activate]
  else if before = 1 ∧ after = 0 then [.deactivate]
  else []

/-- A message has the task activated just by the first subscription and deactivated just by the end
of the last one; it is active then if there are subscriptions; and what it has accumulated and its
heads stay as they are while there are subscriptions before and after. -/
def Faithful (pub : Publisher δ) (e : SubEvent nr) (self : SubTask nr δ) : Prop :=
  ∀ rings msg, e.message? = some (rings, msg) →
    (self.subHn pub rings msg).1 = expectedCalls self.nsubs (self.subHn pub rings msg).2.nsubs ∧
    ((self.subHn pub rings msg).2.task.active = true ↔ 0 < (self.subHn pub rings msg).2.nsubs) ∧
    (0 < self.nsubs → 0 < (self.subHn pub rings msg).2.nsubs →
      (self.subHn pub rings msg).2.task = self.task)

/-- The last but one subscription does not end, and the number of subscriptions does not overflow.
-/
def Straight (e : SubEvent nr) (self : SubTask nr δ) : Prop :=
  match e with
  | .subscribe _ _ => self.nsubs ≠ 2 ^ 32 - 1
  | .unsubscribe _ _ => self.nsubs ≠ 2
  | .wakeup _ _ => True

/-! ## Wakeups -/

section Wakeup

variable {pub : Publisher δ} {rings : Fin nr → Ring} {task task' : Task nr δ}

theorem feed_ne_sleep (pub : Publisher δ) (calls : List Call) (v : View δ) :
    (v.feed pub.pktHn calls).1 ≠ .sleep := by
  induction calls generalizing v with
  | nil => exact fun h => nomatch h
  | cons call calls ih =>
    rw [View.feed]
    split_ifs
    · exact ih _
    · exact pub.awake _ _ _ _ _

/-- A wakeup neither activates nor deactivates a task that publishes. -/
theorem active_of_sigHn {fuel : ℕ} {ret : ℤ} {calls : List Call}
    (h : task.sigHn (pub.hooks nr) rings true fuel .wakeup = some (ret, task', calls)) :
    task'.active = task.active := by
  unfold Task.sigHn at h
  dsimp only at h
  rw [if_neg (by decide)] at h
  split_ifs at h with hact
  · cases h
    rfl
  · cases hp : Task.process (pub.hooks nr) rings true fuel fuel { task with busy := true } with
    | none =>
      rw [hp] at h
      cases h
    | some res =>
      obtain ⟨task₁, calls₁⟩ := res
      rw [hp] at h
      cases h
      obtain ⟨-, hrc⟩ := Task.process_feed hp
      have hawake := feed_ne_sleep pub calls { task with busy := true }.view
      cases hf : (View.feed pub.pktHn calls { task with busy := true }.view).1 with
      | zero =>
        rw [hf] at hrc
        exact hrc.1
      | sleep => exact absurd hf hawake
      | error =>
        rw [hf] at hrc
        exact hrc.1

end Wakeup

/-! ## Messages -/

section Message

variable {pub : Publisher δ} {self self' : SubTask nr δ}

/-- What holds between events. -/
structure SubInv (sub : SubTask nr δ) : Prop where
  active : sub.task.active = true ↔ 0 < sub.nsubs
  small : sub.nsubs < 2 ^ 32

theorem active_activate (pub : Publisher δ) (rings : Fin nr → Ring) (task : Task nr δ) :
    (task.activate (pub.hooks nr) rings).2.active = true := by
  have hwakes : ((pub.hooks nr).dataWakeup task.data).1 = true := pub.wakes task.data
  unfold Task.activate
  rcases hw : (pub.hooks nr).dataWakeup task.data with ⟨ok, data⟩
  rw [hw] at hwakes
  cases hwakes
  rfl

/-- The number of subscriptions after a message, and what becomes of the task. -/
theorem settle_spec (pub : Publisher δ) (rings : Fin nr → Ring) (self : SubTask nr δ) :
    (self.settle pub rings).2.nsubs = self.nsubs ∧
      ((self.nsubs = 1 ∧ (self.settle pub rings).1 = [.activate] ∧
          (self.settle pub rings).2.task.active = true) ∨
        (self.nsubs = 0 ∧ (self.settle pub rings).1 = [.deactivate] ∧
          (self.settle pub rings).2.task.active = false) ∨
        (1 < self.nsubs ∧ self.settle pub rings = ([], self))) := by
  unfold SubTask.settle
  split_ifs with hone hzero
  · exact ⟨rfl, Or.inl ⟨hone, rfl, active_activate pub rings self.task⟩⟩
  · exact ⟨rfl, Or.inr (Or.inl ⟨hzero, rfl, rfl⟩)⟩
  · exact ⟨rfl, Or.inr (Or.inr ⟨by omega, rfl⟩)⟩

theorem subHn_subscribe (rings : Fin nr → Ring) (topic : List UInt8) :
    self.subHn pub rings [1 :: topic] =
      { self with nsubs := (self.nsubs + 1) % 2 ^ 32 }.settle pub rings := by
  unfold SubTask.subHn
  dsimp only [List.headD]
  rw [if_neg (by decide), if_pos rfl]

theorem subHn_unsubscribe (rings : Fin nr → Ring) (topic : List UInt8) :
    self.subHn pub rings [0 :: topic] =
      { self with nsubs := (((self.nsubs : ℤ) - 1) % 2 ^ 32).toNat }.settle pub rings := by
  unfold SubTask.subHn
  dsimp only [List.headD]
  rw [if_pos rfl]

/-- A subscription is handled as it should be just if the number does not overflow. -/
theorem faithful_subscribe (inv : SubInv self) (rings : Fin nr → Ring) (topic : List UInt8) :
    Faithful pub (.subscribe rings topic) self ↔ self.nsubs ≠ 2 ^ 32 - 1 := by
  have hsmall := inv.small
  constructor
  · intro h hmax
    obtain ⟨hcalls, -⟩ := h rings [1 :: topic] rfl
    rw [subHn_subscribe, hmax] at hcalls
    have hwrong : [SubCall.deactivate] = [] := hcalls
    cases hwrong
  · rintro hmax rings' msg hmsg
    obtain ⟨rfl, rfl⟩ := Prod.mk.inj (Option.some.inj hmsg)
    rw [subHn_subscribe]
    have hmod : (self.nsubs + 1) % 2 ^ 32 = self.nsubs + 1 := Nat.mod_eq_of_lt (by omega)
    rw [hmod]
    obtain ⟨hn, hcases⟩ := settle_spec pub rings { self with nsubs := self.nsubs + 1 }
    rw [hn]
    rcases hcases with ⟨hone, hcalls, hact⟩ | ⟨hzero, -⟩ | ⟨hmany, heq⟩
    · dsimp only at hone ⊢
      have hnone : self.nsubs = 0 := by omega
      refine ⟨?_, ⟨fun _ => by omega, fun _ => hact⟩, fun hpos => absurd hpos (by omega)⟩
      rw [hcalls, expectedCalls, if_pos ⟨hnone, hone⟩]
    · dsimp only at hzero
      omega
    · dsimp only at hmany ⊢
      rw [heq]
      refine ⟨?_, ?_, fun _ _ => rfl⟩
      · rw [expectedCalls, if_neg (by omega), if_neg (by omega)]
      · exact inv.active.trans ⟨fun _ => by omega, fun _ => by omega⟩

/-- The end of a subscription is handled as it should be just if there is not one left. -/
theorem faithful_unsubscribe (inv : SubInv self) (pos : 0 < self.nsubs) (rings : Fin nr → Ring)
    (topic : List UInt8) :
    Faithful pub (.unsubscribe rings topic) self ↔ self.nsubs ≠ 2 := by
  have hsmall := inv.small
  constructor
  · intro h htwo
    obtain ⟨hcalls, -⟩ := h rings [0 :: topic] rfl
    rw [subHn_unsubscribe, htwo] at hcalls
    have hwrong : [SubCall.activate] = [] := hcalls
    cases hwrong
  · rintro htwo rings' msg hmsg
    obtain ⟨rfl, rfl⟩ := Prod.mk.inj (Option.some.inj hmsg)
    rw [subHn_unsubscribe]
    have hmod : (((self.nsubs : ℤ) - 1) % 2 ^ 32).toNat = self.nsubs - 1 := by omega
    rw [hmod]
    obtain ⟨hn, hcases⟩ := settle_spec pub rings { self with nsubs := self.nsubs - 1 }
    rw [hn]
    rcases hcases with ⟨hone, -⟩ | ⟨hzero, hcalls, hact⟩ | ⟨hmany, heq⟩
    · dsimp only at hone
      omega
    · dsimp only at hzero ⊢
      have hlast : self.nsubs = 1 := by omega
      refine ⟨?_, ?_, fun _ hpos => absurd hpos (by omega)⟩
      · rw [hcalls, expectedCalls, if_neg (by omega), if_pos ⟨hlast, hzero⟩]
      · rw [hact]
        exact ⟨fun h => Bool.noConfusion h, fun h => absurd h (by omega)⟩
    · dsimp only at hmany ⊢
      rw [heq]
      refine ⟨?_, ?_, fun _ _ => rfl⟩
      · rw [expectedCalls, if_neg (by omega), if_neg (by omega)]
      · exact inv.active.trans ⟨fun _ => by omega, fun _ => by omega⟩

end Message

section Run

variable {pub : Publisher δ}

/-- An event is handled as it should be just if it is straight, as long as there are no ends of
subscriptions without subscriptions; and then the task is active just while there are any. -/
theorem faithful_step (e : SubEvent nr) (evs : List (SubEvent nr)) (self : SubTask nr δ)
    (inv : SubInv self) (balanced : Balanced self.nsubs (e :: evs)) :
    (Faithful pub e self ↔ Straight e self) ∧
      (Straight e self → ∀ self', subStep pub e self = some self' →
        SubInv self' ∧ Balanced self'.nsubs evs) := by
  cases e with
  | subscribe rings topic =>
    have hiff : Faithful pub (.subscribe rings topic) self ↔ self.nsubs ≠ 2 ^ 32 - 1 :=
      faithful_subscribe inv rings topic
    refine ⟨hiff, fun straight self' h => ?_⟩
    obtain ⟨-, hact, -⟩ := hiff.2 straight rings _ rfl
    obtain rfl := Option.some.inj h
    have hsmall := inv.small
    have hne : self.nsubs ≠ 2 ^ 32 - 1 := straight
    have hn : (self.subHn pub rings [1 :: topic]).2.nsubs = self.nsubs + 1 := by
      rw [subHn_subscribe, (settle_spec pub rings _).1]
      exact Nat.mod_eq_of_lt (by omega)
    refine ⟨⟨hact, by omega⟩, ?_⟩
    rw [hn]
    exact balanced
  | unsubscribe rings topic =>
    obtain ⟨hpos, hrest⟩ := balanced
    have hiff : Faithful pub (.unsubscribe rings topic) self ↔ self.nsubs ≠ 2 :=
      faithful_unsubscribe inv hpos rings topic
    refine ⟨hiff, fun straight self' h => ?_⟩
    obtain ⟨-, hact, -⟩ := hiff.2 straight rings _ rfl
    obtain rfl := Option.some.inj h
    have hsmall := inv.small
    have hn : (self.subHn pub rings [0 :: topic]).2.nsubs = self.nsubs - 1 := by
      rw [subHn_unsubscribe, (settle_spec pub rings _).1]
      dsimp only
      omega
    refine ⟨⟨hact, by omega⟩, ?_⟩
    rw [hn]
    exact hrest
  | wakeup rings fuel =>
    refine ⟨⟨fun _ => trivial, fun _ _ _ hmsg => nomatch hmsg⟩, fun _ self' h => ?_⟩
    unfold subStep at h
    dsimp only at h
    split at h
    · rename_i task calls hsig
      obtain rfl := Option.some.inj h
      refine ⟨⟨?_, inv.small⟩, balanced⟩
      rw [active_of_sigHn hsig]
      exact inv.active
    · cases h

/-- In every run all messages are handled as they should be just if all events are straight. -/
theorem faithful_iff_straight (pub : Publisher δ) (evs : List (SubEvent nr)) (self : SubTask nr δ)
    (inactive : self.task.active = false) (zero : self.nsubs = 0) (balanced : Balanced 0 evs) :
    Runs.Along (subStep pub) (Faithful pub) evs self ↔
      Runs.Along (subStep pub) Straight evs self := by
  have inv : SubInv self := by
    refine ⟨?_, by omega⟩
    rw [inactive, zero]
    exact ⟨fun h => Bool.noConfusion h, fun h => absurd h (Nat.lt_irrefl 0)⟩
  rw [← zero] at balanced
  clear zero inactive
  induction evs generalizing self with
  | nil => exact Iff.rfl
  | cons e evs ih =>
    obtain ⟨hiff, hnext⟩ : (Faithful pub e self ↔ Straight e self) ∧ _ :=
      faithful_step e evs self inv balanced
    rw [Runs.Along, Runs.Along, hiff]
    apply and_congr_right
    intro straight
    apply forall_congr'
    intro self'
    apply imp_congr_right
    intro h
    obtain ⟨inv', balanced'⟩ := hnext straight self' h
    exact ih self' balanced' inv'

end Run

/-! ## The two tasks that publish -/

theorem HistData.publish_ne_sleep (hist : HistData) : hist.publish.1 ≠ .sleep := by
  unfold HistData.publish
  dsimp only
  split_ifs
  · rcases (hist.dbgAssert (decide (hist.curSize = hist.size))).sock.send _ with ⟨ok, sock⟩
    cases ok <;> exact fun h => nomatch h
  · exact fun h => nomatch h

/-- The histogram task. -/
def histPublisher : Publisher HistData where
  pktHn := taskHistPktHn
  dataWakeup := taskHistWakeup
  wakes _ := rfl
  awake v pkt flen missed err := by
    unfold taskHistPktHn
    split_ifs
    · exact fun h => nomatch h
    · exact fun h => nomatch h
    · rcases v.data.accept v.prevPseqMca pkt with ⟨ok, hist⟩
      cases ok with
      | false => exact fun h => nomatch h
      | true => exact HistData.publish_ne_sleep _

theorem JitterData.publish_ne_sleep (d : JitterData) : d.publish.1 ≠ .sleep := by
  unfold JitterData.publish
  split_ifs
  · rcases d.sock.send d.hist.encode with ⟨ok, sock⟩
    cases ok <;> exact fun h => nomatch h
  · exact fun h => nomatch h

/-- The jitter task. -/
def jitterPublisher : Publisher JitterData where
  pktHn := taskJitterPktHn
  dataWakeup := taskJitterWakeup
  wakes _ := rfl
  awake v pkt flen missed err := by
    unfold taskJitterPktHn
    dsimp only
    split_ifs
    · exact fun h => nomatch h
    · rcases ((v.data.await pkt).countTick pkt).events pkt pkt.eventNums 0 with ⟨go, d⟩
      cases go with
      | false => exact fun h => nomatch h
      | true => exact JitterData.publish_ne_sleep d

/-! ## Few subscriptions -/

/-- The histogram task before its first subscription. -/
def histSub : SubTask 1 HistData :=
  ⟨⟨fun _ => 0, 0, 0, 0, false, false, false, false, taskHistInit fun _ => true⟩, 0⟩

/-- A ring with one free slot left. -/
def oneRing : Fin 1 → Ring := fun _ => ⟨2, 0, 0, 0, fun _ => mcaFrame 72 0 5 1⟩

theorem faithful_iff_straight_two :
    Runs.Along (subStep histPublisher) (Faithful histPublisher)
      [.subscribe oneRing [], .unsubscribe oneRing []] histSub := by
  apply (faithful_iff_straight histPublisher [.subscribe oneRing [], .unsubscribe oneRing []] histSub
    rfl rfl ⟨Nat.one_pos, trivial⟩).2
  refine ⟨(by decide : 0 ≠ 2 ^ 32 - 1), fun self' h => ⟨?_, fun _ _ => trivial⟩⟩
  obtain rfl := Option.some.inj h
  exact (by decide : 1 ≠ 2)

/-- When one of two subscriptions ends the task is activated anew. -/
theorem not_faithful :
    ¬ ∀ evs : List (SubEvent 1), Balanced 0 evs →
      Runs.Along (subStep histPublisher) (Faithful histPublisher) evs histSub := by
  intro h
  have hall := h [.subscribe oneRing [], .subscribe oneRing [1], .unsubscribe oneRing [1]]
    ⟨Nat.two_pos, trivial⟩
  have hlast := ((hall.2 _ rfl).2 _ rfl).1 oneRing [[0, 1]] rfl
  exact absurd hlast.1 (by decide)

end Tesd
