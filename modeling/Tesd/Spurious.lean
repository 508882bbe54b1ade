import Tesd.Subscribe

/-!
# Messages that are no subscriptions

Whether `s_sub_hn` counts the subscriptions and nothing else, whatever messages come to the
frontend.  The first byte of an empty frame is taken to be the zero at the end of the string that
the frame is copied to, so an empty frame counts as the end of a subscription.
-/

namespace Tesd

/-- What comes to the frontend of a task that publishes: the frames of a message, the rings at the
time, and what the other handlers have done with the task since the last message. -/
structure Received (nr : ℕ) (δ : Type) where
  msg : List (List UInt8)
  rings : Fin nr → Ring
  meanwhile : Task nr δ → Task nr δ

variable {nr : ℕ} {δ : Type}

namespace Received

/-- The message is a single frame that begins with this byte. -/
def begins (b : UInt8) (e : Received nr δ) : Bool :=
  match e.msg with
  | [c :: _] => c == b
  | _ => false

/-- The task as the message finds it. -/
def finds (e : Received nr δ) (self : SubTask nr δ) : SubTask nr δ :=
  { self with task := e.meanwhile self.task }

end Received

/-- What becomes of the task when one message is handled. -/
def SubTask.receive (pub : Publisher δ) (self : SubTask nr δ) (e : Received nr δ) : SubTask nr δ :=
  ((e.finds self).subHn pub e.rings e.msg).2

/-- What becomes of the task when the messages are handled one after the other. -/
def SubTask.receiveAll (pub : Publisher δ) (self : SubTask nr δ) (es : List (Received nr δ)) :
    SubTask nr δ := es.foldl (SubTask.receive pub) self

/-- The subscriptions less the ends of subscriptions. -/
def net (es : List (Received nr δ)) : ℤ :=
  (es.countP (Received.begins 1) : ℤ) - es.countP (Received.begins 0)

/-- Subscriptions do not end before they begin. -/
def Sound (es : List (Received nr δ)) : Prop :=
  ∀ pre, pre <+: es → pre.countP (Received.begins 0) ≤ pre.countP (Received.begins 1)

/-- The number of subscriptions is right at all times, and any message that is neither a
subscription nor the end of one leaves everything as it is. -/
structure CountsOnly (pub : Publisher δ) (es : List (Received nr δ)) (sub : SubTask nr δ) :
    Prop where
  count : ∀ pre, pre <+: es → ((sub.receiveAll pub pre).nsubs : ℤ) = net pre
  ignores : ∀ pre e, pre ++ [e] <+: es → e.begins 0 = false → e.begins 1 = false →
    (e.finds (sub.receiveAll pub pre)).subHn pub e.rings e.msg =
      ([], e.finds (sub.receiveAll pub pre))

section Count

variable {pub : Publisher δ} {es pre : List (Received nr δ)} {e : Received nr δ}
  {self : SubTask nr δ}

theorem net_concat (es : List (Received nr δ)) (e : Received nr δ) :
    net (es ++ [e]) = net es + net [e] := by
  unfold net
  rw [List.countP_append, List.countP_append]
  omega

theorem receiveAll_concat (pub : Publisher δ) (self : SubTask nr δ) (es : List (Received nr δ))
    (e : Received nr δ) :
    self.receiveAll pub (es ++ [e]) = (self.receiveAll pub es).receive pub e :=
  List.foldl_concat _ _ _ _

/-! ## One message -/

/-- What is neither a subscription nor the end of one is ignored, if there is a first byte. -/
theorem subHn_ignored (not_end : e.begins 0 = false) (not_sub : e.begins 1 = false)
    (full : e.msg ≠ [[]]) : self.subHn pub e.rings e.msg = ([], self) := by
  obtain ⟨msg, rings, meanwhile⟩ := e
  rcases msg with _ | ⟨_ | ⟨c, cs⟩, _ | ⟨f, fs⟩⟩
  · rfl
  · exact absurd rfl full
  · rfl
  · have hzero : c ≠ 0 := by simpa [Received.begins] using not_end
    have hone : c ≠ 1 := by simpa [Received.begins] using not_sub
    unfold SubTask.subHn
    dsimp only [List.headD]
    rw [if_neg hzero, if_neg hone]
  · rfl

/-- An empty frame is handled as the end of a subscription. -/
theorem subHn_empty (rings : Fin nr → Ring) :
    self.subHn pub rings [[]] = self.subHn pub rings [[0]] := rfl

/-- The first byte of a message that is a subscription or the end of one. -/
theorem msg_of_begins {b : UInt8} (h : e.begins b = true) : ∃ topic, e.msg = [b :: topic] := by
  obtain ⟨msg, rings, meanwhile⟩ := e
  unfold Received.begins at h
  dsimp only at h
  split at h
  · rename_i c topic
    exact ⟨topic, by rw [eq_of_beq h]⟩
  · cases h

theorem net_singleton (e : Received nr δ) :
    net [e] = (if e.begins 1 then 1 else 0) - (if e.begins 0 then 1 else 0) := by
  cases h : e.begins 1 <;> cases h' : e.begins 0 <;> simp [net, h, h']

theorem not_begins_both (h : e.begins 1 = true) : e.begins 0 = false := by
  obtain ⟨topic, hmsg⟩ := msg_of_begins h
  rw [Received.begins, hmsg]
  rfl

/-- How a message that has a first byte changes the number. -/
theorem receive_nsubs (small : self.nsubs < 2 ^ 32) (full : e.msg ≠ [[]]) :
    ((self.receive pub e).nsubs : ℤ) = (self.nsubs + net [e]) % 2 ^ 32 := by
  rw [net_singleton]
  unfold SubTask.receive
  by_cases hsub : e.begins 1 = true
  · obtain ⟨topic, hmsg⟩ := msg_of_begins hsub
    rw [hmsg, subHn_subscribe, (settle_spec pub e.rings _).1, if_pos hsub, not_begins_both hsub,
      if_neg (by decide)]
    simp [Received.finds]
  · by_cases hend : e.begins 0 = true
    · obtain ⟨topic, hmsg⟩ := msg_of_begins hend
      rw [hmsg, subHn_unsubscribe, (settle_spec pub e.rings _).1, if_neg hsub, if_pos hend]
      have hnonneg : 0 ≤ ((self.nsubs : ℤ) - 1) % 2 ^ 32 := Int.emod_nonneg _ (by decide)
      simp only [Received.finds, Int.toNat_of_nonneg hnonneg]
      rfl
    · rw [subHn_ignored (by simpa using hend) (by simpa using hsub) full, if_neg hsub, if_neg hend]
      simp only [Received.finds]
      omega

/-- Ending a subscription changes something. -/
theorem subHn_end_ne (rings : Fin nr → Ring) (topic : List UInt8) :
    self.subHn pub rings [0 :: topic] ≠ ([], self) := by
  intro h
  have hn : (self.subHn pub rings [0 :: topic]).2.nsubs = self.nsubs := by rw [h]
  rw [subHn_unsubscribe, (settle_spec pub rings _).1] at hn
  dsimp only at hn
  omega

/-! ## All messages -/

/-- The number is right as long as it fits and there are no empty frames. -/
theorem receiveAll_nsubs (zero : self.nsubs = 0) (sound : Sound es)
    (full : ∀ e ∈ es, e.msg ≠ [[]]) (fits : ∀ pre, pre <+: es → net pre < 2 ^ 32) :
    ((self.receiveAll pub es).nsubs : ℤ) = net es := by
  induction es using List.reverseRecOn with
  | nil => simp [SubTask.receiveAll, net, zero]
  | append_singleton es e ih =>
    have hlonger : ∀ {pre}, pre <+: es → pre <+: es ++ [e] :=
      fun h => h.trans (List.prefix_append es [e])
    have hbefore := ih (fun pre h => sound pre (hlonger h))
      (fun e' h => full e' (List.mem_append_left _ h)) (fun pre h => fits pre (hlonger h))
    have hsmall : net es < 2 ^ 32 := fits es (hlonger List.prefix_rfl)
    have hlater : net (es ++ [e]) < 2 ^ 32 := fits _ List.prefix_rfl
    have hsound := sound _ List.prefix_rfl
    have hnonneg : 0 ≤ net (es ++ [e]) := by
      unfold net
      omega
    rw [receiveAll_concat, receive_nsubs (by omega) (full e (by simp)), hbefore, ← net_concat]
    exact Int.emod_eq_of_lt hnonneg hlater

theorem receiveAll_small (zero : self.nsubs = 0) : (self.receiveAll pub es).nsubs < 2 ^ 32 := by
  induction es using List.reverseRecOn with
  | nil => simp [SubTask.receiveAll, zero]
  | append_singleton es e ih =>
    rw [receiveAll_concat]
    by_cases hempty : e.msg = [[]]
    · unfold SubTask.receive
      rw [hempty, subHn_empty, subHn_unsubscribe, (settle_spec pub e.rings _).1]
      dsimp only
      omega
    · have h : (((self.receiveAll pub es).receive pub e).nsubs : ℤ) = _ := receive_nsubs ih hempty
      omega

/-- Whatever messages come, `s_sub_hn` counts the subscriptions and nothing else just if none of the
messages is an empty frame and there are never 2³² subscriptions. -/
theorem counts_only_iff (pub : Publisher δ) (es : List (Received nr δ)) (self : SubTask nr δ)
    (zero : self.nsubs = 0) (sound : Sound es) : CountsOnly pub es self ↔
      (∀ e ∈ es, e.msg ≠ [[]]) ∧ ∀ pre, pre <+: es → net pre < 2 ^ 32 := by
  constructor
  · intro counts
    refine ⟨fun e he hempty => ?_, fun pre hpre => ?_⟩
    · obtain ⟨pre, post, rfl⟩ := List.append_of_mem he
      have hpart : pre ++ [e] <+: pre ++ e :: post := ⟨post, by simp⟩
      have hnone : ∀ b, e.begins b = false := by
        intro b
        unfold Received.begins
        rw [hempty]
      have hignored := counts.ignores pre e hpart (hnone 0) (hnone 1)
      rw [hempty, subHn_empty] at hignored
      exact subHn_end_ne e.rings [] hignored
    · have hsmall : (self.receiveAll pub pre).nsubs < 2 ^ 32 := receiveAll_small zero
      have hcount := counts.count pre hpre
      omega
  · rintro ⟨full, fits⟩
    constructor
    · intro pre hpre
      exact receiveAll_nsubs zero (fun p hp => sound p (hp.trans hpre))
        (fun e he => full e (hpre.subset he)) fun p hp => fits p (hp.trans hpre)
    · intro pre e hpre hend hsub
      exact subHn_ignored hend hsub (full e (hpre.subset (by simp)))

end Count

/-- A message to the histogram task. -/
def toHist (msg : List (List UInt8)) : Received 1 HistData := ⟨msg, oneRing, id⟩

theorem sound_of_inits {es : List (Received nr δ)} (h : ∀ pre ∈ es.inits,
    pre.countP (Received.begins 0) ≤ pre.countP (Received.begins 1)) : Sound es :=
  fun pre hpre => h pre ((List.mem_inits _ _).2 hpre)

theorem counts_only_iff_three : CountsOnly histPublisher
    [toHist [[1]], toHist [[2, 0]], toHist [[0], [1]], toHist [[0]]] histSub := by
  refine (counts_only_iff histPublisher _ histSub rfl (sound_of_inits (by decide))).2 ⟨?_, ?_⟩
  · decide
  · intro pre hpre
    have hinits : ∀ pre ∈ [toHist [[1]], toHist [[2, 0]], toHist [[0], [1]], toHist [[0]]].inits,
        net pre < 2 ^ 32 := by
      decide
    exact hinits pre ((List.mem_inits _ _).2 hpre)

/-- An empty frame takes the only subscription away. -/
theorem not_counts_only : ¬ ∀ es : List (Received 1 HistData), Sound es →
    CountsOnly histPublisher es histSub := by
  intro h
  have counts := h [toHist [[1]], toHist [[]]] (sound_of_inits (by decide))
  have hcount := counts.count _ List.prefix_rfl
  revert hcount
  decide

end Tesd
