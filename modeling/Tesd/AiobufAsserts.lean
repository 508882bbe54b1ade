import Tesd.AiobufProof

/-!
# The assertions of the write buffer

All assertions in `s_queue_aiobuf`, and all but the last one in `s_try_queue_aiobuf`, hold in every
state that appending bytes leads to.  The last one demands that there is room for another frame also
when an error is returned: it holds just if the batches whose end makes room for the frame do end
well (`Fits`).
-/

namespace Tesd

namespace Aiobuf

/-! ## Every assertion but the last one -/

section Asserts

variable {b : Aiobuf}

@[simp] theorem tick_dbg (b : Aiobuf) : b.tick.dbg = b.dbg := by unfold tick; split <;> rfl
@[simp] theorem tick_batch (b : Aiobuf) : b.tick.batch = b.batch := by unfold tick; split <;> rfl

theorem dbgAssert_of_true (b : Aiobuf) {c : Bool} (h : c = true) : b.dbgAssert c = b := by
  rw [h, dbgAssert, Bool.and_true]

/-- How the request in flight will end, if there is one. -/
def ending (b : Aiobuf) : Option Outcome := b.request.map Request.outcome

@[simp] theorem tick_ending (b : Aiobuf) : b.tick.ending = b.ending := by
  unfold ending
  cases hr : b.request with
  | none => rw [tick_request_eq_none.2 hr]
  | some r =>
    obtain ⟨m, hm⟩ := tick_request hr
    rw [hm]
    rfl

theorem prepareNext_eq_queueAsIs (lay : Layout b) : b.prepareNext = b.prepared.queueAsIs := by
  have hn := nextBatch_eq lay
  have hw := lay.waiting_lt
  have ht := releasedTail_lt lay
  have hm : (b.waiting + SIZE_MOD - min b.waiting (BUFSIZE - b.releasedTail)) % SIZE_MOD =
      b.waiting - min b.waiting (BUFSIZE - b.releasedTail) := by
    rw [show b.waiting + SIZE_MOD - min b.waiting (BUFSIZE - b.releasedTail) =
      b.waiting - min b.waiting (BUFSIZE - b.releasedTail) + SIZE_MOD by omega, Nat.add_mod_right]
    have : BUFSIZE ≤ SIZE_MOD := by decide
    exact Nat.mod_eq_of_lt (by omega)
  unfold nextBatch at hn
  unfold prepareNext prepared dbgAssert nextBatch
  dsimp only
  simp only [hn, hm]
  rw [decide_eq_true ht, decide_eq_true (Nat.min_le_left _ _), decide_eq_true (by omega)]
  simp only [Bool.and_true]

/-- A batch is accepted by `aio_write`. -/
def Accepted (b : Aiobuf) : Prop :=
  (b.sched.fate b.batch).refused = none ∧ b.size + b.enqueued ≤ OFF_MAX

theorem aioWrite_fate (again : ℕ) (free : b.request = none) :
    (b.Accepted ∧ ∃ r c, b.aioWrite again =
        (none, { b with batch := b.batch + 1, clock := c, request := some r }) ∧
        r.outcome = (b.sched.fate b.batch).outcome) ∨
      ¬b.Accepted ∧ ∃ e c, b.aioWrite again =
        (some e, { b with batch := b.batch + 1, clock := c, lost := true }) := by
  unfold Accepted
  induction again generalizing b with
  | zero =>
    simp only [aioWrite]
    cases hrefused : (b.sched.fate b.batch).refused with
    | some e => exact Or.inr ⟨by simp, e, b.clock, rfl⟩
    | none =>
      dsimp only
      split_ifs with hmax
      · exact Or.inr ⟨by omega, _, b.clock, rfl⟩
      · exact Or.inl ⟨⟨rfl, by omega⟩, _, b.clock, rfl, rfl⟩
  | succ again ih =>
    rw [aioWrite, tick_of_none free]
    exact ih (b := { b with clock := b.clock + 1 }) free

/-- The three ways to go on from `prepare_next`; no assertion fails on any of them. -/
theorem prepareNext_cases (h : Settled b) :
    (b.prepared.enqueued = 0 ∧ b.prepareNext = (.zero, b.prepared)) ∨
      (b.prepared.enqueued ≠ 0 ∧ b.prepared.Accepted ∧ ∃ r c, b.prepareNext =
          (.inProgress, { b.prepared with batch := b.batch + 1, clock := c, request := some r }) ∧
        r.outcome = (b.sched.fate b.batch).outcome) ∨
      b.prepared.enqueued ≠ 0 ∧ ¬b.prepared.Accepted ∧ ∃ c, b.prepareNext =
        (.error, { b.prepared with batch := b.batch + 1, clock := c, lost := true }) := by
  have ht : b.prepared.tail ≠ BUFSIZE := (prepared_layout h).tail_lt.ne
  have hw : b.prepared.enqueued = 0 → b.prepared.waiting = 0 := by
    have := releasedTail_lt h.toLayout
    unfold prepared
    dsimp only
    omega
  rw [prepareNext_eq_queueAsIs h.toLayout, queueAsIs]
  dsimp only
  rw [dbgAssert_of_true _ (decide_eq_true ht)]
  by_cases he : b.prepared.enqueued = 0
  · rw [if_pos he, dbgAssert_of_true _ (decide_eq_true (hw he))]
    exact Or.inl ⟨he, rfl⟩
  · rw [if_neg he]
    have free : b.prepared.request = none := h.request
    rcases aioWrite_fate (b.prepared.sched.fate b.prepared.batch).again free with
      ⟨acc, r, c, hr, ho⟩ | ⟨acc, e, c, hr⟩
    · rw [hr]
      exact Or.inr (Or.inl ⟨he, acc, r, c, rfl, ho⟩)
    · rw [hr]
      exact Or.inr (Or.inr ⟨he, acc, c, rfl⟩)

/-- Only the kernel's side has changed, and the memory that bytes are copied to. -/
structure Alike (b b' : Aiobuf) : Prop where
  tail : b'.tail = b.tail
  cur : b'.cur = b.cur
  waiting : b'.waiting = b.waiting
  enqueued : b'.enqueued = b.enqueued
  size : b'.size = b.size
  batch : b'.batch = b.batch
  sched : b'.sched = b.sched
  dbg : b'.dbg = b.dbg

theorem alike_refl (b : Aiobuf) : Alike b b := ⟨rfl, rfl, rfl, rfl, rfl, rfl, rfl, rfl⟩

theorem alike_trans {b₁ b₂ b₃ : Aiobuf} (h : Alike b₁ b₂) (h' : Alike b₂ b₃) : Alike b₁ b₃ :=
  ⟨h'.tail.trans h.tail, h'.cur.trans h.cur, h'.waiting.trans h.waiting,
    h'.enqueued.trans h.enqueued, h'.size.trans h.size, h'.batch.trans h.batch,
    h'.sched.trans h.sched, h'.dbg.trans h.dbg⟩

theorem alike_prepared {b' : Aiobuf} (h : Alike b b') : Alike b.prepared b'.prepared := by
  have ht : b'.releasedTail = b.releasedTail := by simp only [releasedTail, h.tail, h.enqueued]
  constructor <;> simp [prepared, h.cur, h.waiting, h.enqueued, h.size, h.batch, h.sched, h.dbg, ht]

theorem accepted_alike {b' : Aiobuf} (h : Alike b b') : b'.Accepted ↔ b.Accepted := by
  simp only [Accepted, h.sched, h.batch, h.size, h.enqueued]

/-! ## A forced call -/

/-- A request that has ended well lets the next batch be prepared; any other end is an error. -/
theorem complete_ending (inv : Inv b) (ok : b.lost = false) {r : Request}
    (hr : b.request = some r) (done : r.polls = 0) :
    (r.outcome = .complete ∧
        ∃ s, Settled s ∧ Alike b s ∧ b.complete = s.prepareNext) ∨
      r.outcome ≠ .complete ∧ b.complete.1 ≠ .inProgress ∧ Alike b b.complete.2 ∧
        b.complete.2.ending ≠ some .complete := by
  have f := inv.flight r hr
  cases ho : r.outcome with
  | failed e =>
    rw [complete_of_failed hr done ho]
    exact Or.inr ⟨by simp, by simp, by constructor <;> rfl, by simp [ending, hr, ho]⟩
  | complete =>
    have full : r.count = b.enqueued := by simp only [Request.count, ho, f.nbytes]
    rw [complete_of_landed hr done (by simp [ho]), if_neg (not_not.2 full)]
    exact Or.inl ⟨rfl, b.landed r, landed_settled inv ok hr full, by constructor <;> rfl, rfl⟩
  | short n =>
    have hne := f.enqueued_ne
    have short : r.count ≠ b.enqueued := by
      simp only [Request.count, ho, f.nbytes]
      omega
    rw [complete_of_landed hr done (by simp [ho]), if_pos short,
      dbgAssert_of_true _ (decide_eq_true (by omega))]
    exact Or.inr ⟨by simp, by simp, by constructor <;> rfl, by simp [ending, landed]⟩

/-- The kernel goes on with the request in flight; its end does not change. -/
theorem ending_polls {r : Request} (hr : b.request = some r) (n : ℕ) :
    Alike b { b with request := some { r with polls := n } }.tick ∧
      { b with request := some { r with polls := n } }.tick.ending = b.ending := by
  refine ⟨by constructor <;> simp, ?_⟩
  rw [tick_ending, ending, ending, hr]
  rfl

/-- A forced call while a batch is queued. -/
theorem queueAiobuf_forced (inv : Inv b) (he : b.enqueued ≠ 0) :
    (b.ending = some .complete ∧
        ∃ s, Settled s ∧ Alike b s ∧ b.queueAiobuf true = s.prepareNext) ∨
      b.ending ≠ some .complete ∧ (b.queueAiobuf true).1 ≠ .inProgress ∧
        Alike b (b.queueAiobuf true).2 ∧ (b.queueAiobuf true).2.ending ≠ some .complete := by
  cases hl : b.lost with
  | true =>
    rw [queueAiobuf_of_lost inv hl]
    have hend : b.ending ≠ some .complete := fun h => by
      obtain ⟨r, hr, ho⟩ := Option.map_eq_some_iff.1 h
      obtain ⟨-, e, hd⟩ := (inv.dead hl).2 r hr
      simp [ho] at hd
    exact Or.inr ⟨hend, by simp, alike_refl b, hend⟩
  | false =>
    obtain ⟨r, hr⟩ := inv.alive hl he
    have hend : b.ending = some r.outcome := by rw [ending, hr]; rfl
    rw [hend, ne_eq, Option.some.injEq]
    by_cases done : r.polls = 0
    · rw [queueAiobuf_of_done he hr done]
      exact complete_ending inv hl hr done
    · obtain ⟨b', hb', -, hforce⟩ := queueAiobuf_of_polls he hr done
      have quiet : Quiet b b' := hb' ▸ quiet_tick_polls inv hl hr _
      have hsame : Alike b b' ∧ b'.ending = b.ending := hb' ▸ ending_polls hr _
      have hl' := quiet.lost.trans hl
      obtain ⟨s, hs⟩ := quiet.inv.alive hl' (by rw [quiet.still.enqueued]; exact he)
      have ready := quiet_tick_polls quiet.inv hl' hs 0
      have heq : b'.aioSuspend.2 = { b' with request := some { s with polls := 0 } }.tick := by
        simp [aioSuspend, hs, Request.ready]
      obtain ⟨m, hm⟩ := tick_request (b := { b' with request := some { s with polls := 0 } }) rfl
      have ho : s.outcome = r.outcome := by
        have := hsame.2
        rw [hend, ending, hs] at this
        exact Option.some.inj this
      have alike := alike_trans hsame.1 (ending_polls hs 0).1
      rw [hforce, heq, ← ho]
      rcases complete_ending ready.inv (ready.lost.trans hl') hm rfl with
        ⟨hc, t, ht, hat, hcomp⟩ | ⟨hc, hrc, hat⟩
      · exact Or.inl ⟨hc, t, ht, alike_trans alike hat, hcomp⟩
      · exact Or.inr ⟨hc, hrc, alike_trans alike hat.1, hat.2⟩

/-- A call that does not wait either finds the batch in flight, or does what a forced one does. -/
theorem queueAiobuf_unforced (inv : Inv b) :
    b.queueAiobuf false = b.queueAiobuf true ∨
      (b.queueAiobuf false).1 = .inProgress ∧ Alike b (b.queueAiobuf false).2 ∧
        (b.queueAiobuf false).2.ending = b.ending := by
  cases hl : b.lost with
  | true => exact Or.inl (by rw [queueAiobuf_of_lost inv hl, queueAiobuf_of_lost inv hl])
  | false =>
    by_cases he : b.enqueued = 0
    · exact Or.inl (by rw [queueAiobuf, queueAiobuf, if_pos he, if_pos he])
    · obtain ⟨r, hr⟩ := inv.alive hl he
      by_cases done : r.polls = 0
      · exact Or.inl (by rw [queueAiobuf_of_done he hr done, queueAiobuf_of_done he hr done])
      · obtain ⟨b', hb', hskip, -⟩ := queueAiobuf_of_polls he hr done
        rw [hskip, hb']
        exact Or.inr ⟨rfl, ending_polls hr _⟩

/-! ## Forcing until there is room -/

theorem pending_alike {b' : Aiobuf} (h : Alike b b') : b'.pending = b.pending := by
  simp only [pending, h.enqueued, h.waiting]

/-- What waited is what is pending once the batch before is released. -/
theorem pending_prepared (lay : Layout b) : b.prepared.pending = b.waiting := by
  have := lay.waiting_lt
  have hsize : BUFSIZE < SIZE_MOD := by decide
  unfold pending prepared
  dsimp only
  rw [Nat.mod_eq_of_lt (by omega)]
  omega

/-- What waited is in flight now, up to the end of the buffer zone. -/
structure Submitted (b b' : Aiobuf) : Prop where
  inv : Inv b'
  alike : Alike { b.prepared with batch := b.batch + 1 } b'
  ending : b'.ending = some (b.sched.fate b.batch).outcome

/-- The loop goes on only while a batch is in flight and there is no room. -/
theorem forceWrite_stop {fuel : ℕ} {rc : QueueRc} {p : QueueRc × Aiobuf}
    (hc : ¬(b.pending > BUFSIZE - MTU ∧ rc = .inProgress)) (h : b.forceWrite fuel rc = some p) :
    p.2 = b := by
  cases fuel with
  | zero => cases h
  | succ fuel =>
    rw [forceWrite, if_neg hc] at h
    exact congrArg Prod.snd (Option.some.inj h).symm

/-- One turn of the loop: it ends without room, or with room, or goes on with the next batch. -/
theorem forceWrite_turn {fuel : ℕ} {p : QueueRc × Aiobuf} (inv : Inv b) (he : b.enqueued ≠ 0)
    (full : BUFSIZE - MTU < b.pending) (h : b.forceWrite (fuel + 1) .inProgress = some p) :
    (p.2.dbg = b.dbg ∧ BUFSIZE - MTU < p.2.pending ∧ (b.ending ≠ some .complete ∨
        BUFSIZE - MTU < b.waiting ∧ ¬b.prepared.Accepted)) ∨
      (p.2.dbg = b.dbg ∧ p.2.pending ≤ BUFSIZE - MTU ∧ b.ending = some .complete ∧
        b.waiting ≤ BUFSIZE - MTU) ∨
      b.ending = some .complete ∧ BUFSIZE - MTU < b.waiting ∧ b.prepared.Accepted ∧
        ∃ b', Submitted b b' ∧ b'.forceWrite fuel .inProgress = some p := by
  rw [forceWrite, if_pos ⟨full, rfl⟩] at h
  dsimp only at h
  rcases queueAiobuf_forced inv he with ⟨hend, s, settled, alike, hq⟩ | ⟨hend, hrc, alike, -⟩
  · rw [hq] at h
    have hp : s.prepared.pending = b.waiting :=
      (pending_prepared settled.toLayout).trans alike.waiting
    have spec := prepareNext_spec settled
    have acc := accepted_alike (alike_prepared alike)
    rcases prepareNext_cases settled with ⟨h0, hn⟩ | ⟨-, ha, r, c, hn, ho⟩ | ⟨-, ha, c, hn⟩
    · rw [hn] at h
      have hroom : b.waiting ≤ BUFSIZE - MTU := by
        have ht := releasedTail_lt settled.toLayout
        unfold prepared at h0
        rw [← alike.waiting]
        dsimp only at h0
        omega
      rw [forceWrite_stop (by simp) h]
      exact Or.inr (Or.inl ⟨alike.dbg, hp.trans_le hroom, hend, hroom⟩)
    · rw [hn] at h spec
      by_cases hroom : b.waiting ≤ BUFSIZE - MTU
      · have hstop : ¬pending { s.prepared with
            batch := s.batch + 1, clock := c, request := some r } > BUFSIZE - MTU :=
          Nat.not_lt.2 (hp.trans_le hroom)
        rw [forceWrite_stop (fun hc => hstop hc.1) h]
        exact Or.inr (Or.inl ⟨alike.dbg, hp.trans_le hroom, hend, hroom⟩)
      · refine Or.inr (Or.inr ⟨hend, Nat.lt_of_not_le hroom, acc.1 ha, _, ⟨spec.inv, ?_, ?_⟩, h⟩)
        · have prep := alike_prepared alike
          exact ⟨prep.tail, prep.cur, prep.waiting, prep.enqueued, prep.size,
            congrArg (· + 1) alike.batch, prep.sched, prep.dbg⟩
        · rw [← alike.sched, ← alike.batch, ← ho]
          rfl
    · rw [hn] at h
      rw [forceWrite_stop (by simp) h]
      have hp' : ∀ k c, pending { s.prepared with batch := k, clock := c, lost := true } =
          b.waiting := fun _ _ => hp
      rw [hp']
      by_cases hroom : b.waiting ≤ BUFSIZE - MTU
      · exact Or.inr (Or.inl ⟨alike.dbg, hroom, hend, hroom⟩)
      · have hfull := Nat.lt_of_not_le hroom
        exact Or.inl ⟨alike.dbg, hfull, Or.inr ⟨hfull, fun hacc => ha (acc.2 hacc)⟩⟩
  · rw [forceWrite_stop (fun hc => hrc hc.2) h]
    exact Or.inl ⟨alike.dbg, by rwa [pending_alike alike], Or.inl hend⟩

/-- The batch with this number, which reaches up to `stop` in the file, is accepted and ends
well. -/
def Completes (b : Aiobuf) (k stop : ℕ) : Prop :=
  (b.sched.fate k).refused = none ∧ (b.sched.fate k).outcome = .complete ∧ stop ≤ OFF_MAX

/-- What the next batch takes of so many waiting bytes. -/
def firstBatch (b : Aiobuf) (waiting : ℕ) : ℕ := min waiting (BUFSIZE - b.releasedTail)

/-- There will be room for another frame once so many bytes are appended: the batch in flight, if it
has to be waited for, ends well, and so do the next ones that do. -/
@[mk_iff]
structure Fits (b : Aiobuf) (len : ℕ) : Prop where
  first : BUFSIZE - MTU < b.enqueued + b.waiting + len → b.ending = some .complete
  second : BUFSIZE - MTU < b.waiting + len →
    b.Completes b.batch (b.size + b.enqueued + b.firstBatch (b.waiting + len))
  third : BUFSIZE - MTU < b.waiting + len - b.firstBatch (b.waiting + len) →
    b.Completes (b.batch + 1) (b.size + b.enqueued + (b.waiting + len))

theorem accepted_prepared : b.prepared.Accepted ↔ (b.sched.fate b.batch).refused = none ∧
    b.size + b.enqueued + b.firstBatch b.waiting ≤ OFF_MAX := Iff.rfl

section Submitted

variable {b' : Aiobuf}

theorem submitted_enqueued (h : Submitted b b') : b'.enqueued = b.firstBatch b.waiting :=
  h.alike.enqueued

theorem submitted_waiting (h : Submitted b b') :
    b'.waiting = b.waiting - b.firstBatch b.waiting :=
  h.alike.waiting

theorem submitted_pending (lay : Layout b) (h : Submitted b b') : b'.pending = b.waiting :=
  (pending_alike h.alike).trans (pending_prepared lay)

/-- A batch that leaves something waiting ends where the buffer zone does, so that the next one
takes all the rest. -/
theorem submitted_firstBatch (h : Submitted b b') : b'.firstBatch b'.waiting = b'.waiting := by
  have hlt := h.inv.waiting_lt
  have htail : b'.tail = b.releasedTail := h.alike.tail
  have htl := h.inv.tail_lt
  by_cases hrest : b'.waiting = 0
  · rw [firstBatch, hrest, Nat.zero_min]
  · have ht : b'.releasedTail = 0 := by
      rw [releasedTail, if_pos]
      rw [submitted_waiting h, firstBatch] at hrest
      rw [submitted_enqueued h, firstBatch]
      omega
    rw [firstBatch, ht]
    omega

/-- Once the first of the batches has ended well, what is asked of the others stays the same. -/
theorem fits_submitted (hend : b.ending = some .complete)
    (hw : BUFSIZE - MTU < b.waiting) (ha : b.prepared.Accepted) (h : Submitted b b') :
    b'.Fits 0 ↔ b.Fits 0 := by
  have hsum : b.firstBatch b.waiting ≤ b.waiting := Nat.min_le_left _ _
  have he' := submitted_enqueued h
  have hw' := submitted_waiting h
  have hrest := submitted_firstBatch h
  have hsize : b'.size = b.size + b.enqueued := h.alike.size
  have hsched : b'.sched = b.sched := h.alike.sched
  have hbatch : b'.batch = b.batch + 1 := h.alike.batch
  obtain ⟨hr, hmax⟩ := accepted_prepared.1 ha
  have hstop : b'.size + b'.enqueued + b'.firstBatch b'.waiting =
      b.size + b.enqueued + b.waiting := by omega
  constructor
  · intro fits
    refine ⟨fun _ => hend, fun _ => ⟨hr, ?_, hmax⟩, fun hlt => ?_⟩
    · have hout := fits.first (by omega)
      rw [h.ending] at hout
      exact Option.some.inj hout
    · have hnext := fits.second (by rwa [Nat.add_zero, hw'])
      rw [Completes, Nat.add_zero, hstop, hsched, hbatch] at hnext
      exact hnext
  · intro fits
    refine ⟨fun _ => ?_, fun hlt => ?_, fun hlt => ?_⟩
    · rw [h.ending, (fits.second hw).2.1]
    · have hnext := fits.third (by rwa [Nat.add_zero, hw'] at hlt)
      rw [Completes, Nat.add_zero, hstop, hsched, hbatch]
      exact hnext
    · rw [Nat.add_zero, hrest] at hlt
      omega

end Submitted

/-- The loop that forces writing makes room just if the batches it waits for end well.  By induction
on the turns: each one leaves a batch in flight of which as much is asked. -/
theorem forceWrite_room_iff {fuel : ℕ} {p : QueueRc × Aiobuf} (inv : Inv b) (he : b.enqueued ≠ 0)
    (full : BUFSIZE - MTU < b.pending) (h : b.forceWrite fuel .inProgress = some p) :
    p.2.dbg = b.dbg ∧ (p.2.pending ≤ BUFSIZE - MTU ↔ b.Fits 0) := by
  induction fuel generalizing b with
  | zero => cases h
  | succ fuel ih =>
    rcases forceWrite_turn inv he full h with
      ⟨hd, hp, hbad⟩ | ⟨hd, hp, hend, hw⟩ | ⟨hend, hw, ha, b', sub, h'⟩
    · refine ⟨hd, fun hle => absurd hp (Nat.not_lt.2 hle), fun fits => ?_⟩
      rcases hbad with hend | ⟨hw, ha⟩
      · exact absurd (fits.first (by rwa [← pending_eq inv.toLayout])) hend
      · obtain ⟨hr, -, hmax⟩ := fits.second hw
        exact absurd (accepted_prepared.2 ⟨hr, hmax⟩) ha
    · refine ⟨hd, fun _ => ⟨fun _ => hend, fun hlt => ?_, fun hlt => ?_⟩, fun _ => hp⟩
      · exact absurd hlt (Nat.not_lt.2 hw)
      · exact absurd hlt (Nat.not_lt.2 ((Nat.sub_le _ _).trans hw))
    · have he' : b'.enqueued ≠ 0 := by
        have := releasedTail_lt inv.toLayout
        rw [submitted_enqueued sub, firstBatch]
        omega
      obtain ⟨hd, hfits⟩ := ih sub.inv he' (by rwa [submitted_pending inv.toLayout sub]) h'
      exact ⟨hd.trans sub.alike.dbg, hfits.trans (fits_submitted hend hw ha sub)⟩

/-! ## One append -/

theorem prepareNext_dbg (h : Settled b) : b.prepareNext.2.dbg = b.dbg := by
  rcases prepareNext_cases h with ⟨-, hn⟩ | ⟨-, -, r, c, hn, -⟩ | ⟨-, -, c, hn⟩ <;> rw [hn] <;> rfl

/-- No assertion of `s_queue_aiobuf` fails. -/
theorem queueAiobuf_dbg (inv : Inv b) (force : Bool) : (b.queueAiobuf force).2.dbg = b.dbg := by
  have forced : (b.queueAiobuf true).2.dbg = b.dbg := by
    by_cases he : b.enqueued = 0
    · rw [queueAiobuf, if_pos he]
      exact prepareNext_dbg (settled_of_enqueued_eq_zero inv he)
    · rcases queueAiobuf_forced inv he with ⟨-, s, settled, alike, hq⟩ | ⟨-, -, alike, -⟩
      · rw [hq, prepareNext_dbg settled, alike.dbg]
      · exact alike.dbg
  cases force with
  | true => exact forced
  | false =>
    rcases queueAiobuf_unforced inv with heq | ⟨-, alike, -⟩
    · rw [heq, forced]
    · exact alike.dbg

theorem fits_alike {b' : Aiobuf} (h : Alike b b') (hend : b'.ending = b.ending) (len : ℕ) :
    b'.Fits len ↔ b.Fits len := by
  have ht : b'.releasedTail = b.releasedTail := by simp only [releasedTail, h.tail, h.enqueued]
  simp only [fits_iff, Completes, firstBatch, ht, hend, h.waiting, h.enqueued, h.size, h.batch,
    h.sched]

theorem fits_of_room {len : ℕ} (h : b.enqueued + b.waiting + len ≤ BUFSIZE - MTU) : b.Fits len :=
  ⟨fun hlt => by omega, fun hlt => by omega, fun hlt => by omega⟩

/-- Queueing what waits, and forcing that until there is room. -/
theorem queue_forceWrite_iff {fuel : ℕ} {p : QueueRc × Aiobuf} (inv : Inv b)
    (idle : b.enqueued = 0 → b.waiting ≤ BUFSIZE - MTU)
    (h : (b.queueAiobuf false).2.forceWrite fuel (b.queueAiobuf false).1 = some p) :
    p.2.dbg = b.dbg ∧ (p.2.pending ≤ BUFSIZE - MTU ↔ b.Fits 0) := by
  have q := queueAiobuf_spec inv false
  have hpend := pending_eq inv.toLayout
  by_cases full : BUFSIZE - MTU < b.pending
  · have he : b.enqueued ≠ 0 := by
      intro he
      have := idle he
      omega
    rcases queueAiobuf_unforced inv with heq | ⟨hrc, alike, hend⟩
    · -- the call was a forced one already
      have hturn : b.forceWrite (fuel + 1) .inProgress = some p := by
        rw [forceWrite, if_pos ⟨full, rfl⟩, ← heq]
        exact h
      exact forceWrite_room_iff inv he full hturn
    · rw [hrc] at h
      obtain ⟨hd, hfits⟩ := forceWrite_room_iff q.inv (by rwa [alike.enqueued])
        (by rwa [pending_alike alike]) h
      exact ⟨hd.trans alike.dbg, hfits.trans (fits_alike alike hend 0)⟩
  · have hle : (b.queueAiobuf false).2.pending ≤ BUFSIZE - MTU := by
      have := q.pending_le
      rw [pending_eq q.inv.toLayout]
      omega
    rw [forceWrite_stop (fun hc => absurd hc.1 (Nat.not_lt.2 hle)) h]
    exact ⟨queueAiobuf_dbg inv false, fun _ => fits_of_room (by omega), fun _ => hle⟩

theorem memcpy_ending (xs : List UInt8) (dst : ℕ) (b : Aiobuf) :
    (b.memcpy xs dst).ending = b.ending := by
  induction xs generalizing dst b with
  | nil => rfl
  | cons x xs ih =>
    rw [memcpy, ih, tick_ending]
    rfl

/-- Copying moves the cursor and counts the bytes as waiting; the rest of the record stays. -/
theorem copyIn_frame (buf : List UInt8) (b : Aiobuf) :
    Alike { b with
      cur := (b.copyIn buf).cur, waiting := (b.copyIn buf).waiting } (b.copyIn buf) ∧
      (b.copyIn buf).ending = b.ending := by
  unfold copyIn
  dsimp only
  split_ifs
  · have hend := memcpy_ending buf b.cur b
    obtain ⟨m, f, r, c, h⟩ := memcpy_frame buf b.cur b
    rw [h] at hend ⊢
    exact ⟨by constructor <;> rfl, hend⟩
  · have hend := (memcpy_ending (buf.drop (BUFSIZE - b.cur)) 0
      (b.memcpy (buf.take (BUFSIZE - b.cur)) b.cur)).trans (memcpy_ending _ _ b)
    obtain ⟨m, f, r, c, h⟩ := memcpy_frame (buf.take (BUFSIZE - b.cur)) b.cur b
    obtain ⟨m', f', r', c', h'⟩ := memcpy_frame (buf.drop (BUFSIZE - b.cur)) 0
      (b.memcpy (buf.take (BUFSIZE - b.cur)) b.cur)
    rw [h', h] at hend ⊢
    exact ⟨by constructor <;> rfl, hend⟩

/-- What holds between two appends while every assertion has held. -/
structure Live (b : Aiobuf) : Prop where
  inv : Inv b
  room : b.enqueued + b.waiting ≤ BUFSIZE - MTU
  idle : b.enqueued = 0 → b.waiting < MINSIZE
  opened : b.opened = true
  dbg : b.dbg = true

/-- The assertions on entry hold. -/
theorem entryAsserts_of_live (live : Live b) {len : ℕ} (hlen : 1 ≤ len) :
    b.entryAsserts len = true := by
  have lay := live.inv.toLayout
  have hroom := live.room
  have ht := lay.tail_lt
  have hcur := lay.cur_eq
  have hmtu : 0 < MTU ∧ MTU < BUFSIZE := by decide
  have hplace : b.cur < BUFSIZE ∧ (b.cur < b.tail ∨ b.cur ≥ b.tail + b.enqueued) ∧
      b.cur + (if b.cur < b.tail then BUFSIZE else 0) = b.tail + b.enqueued + b.waiting := by
    rcases Nat.lt_or_ge (b.tail + b.enqueued + b.waiting) BUFSIZE with hlt | hge
    · rw [Nat.mod_eq_of_lt hlt] at hcur
      rw [if_neg (by omega)]
      omega
    · rw [Nat.add_assoc, Circular.add_mod_of_le ht (by omega) (by omega)] at hcur
      rw [if_pos (by omega)]
      omega
  unfold entryAsserts
  rw [live.opened, pending_eq lay]
  simp only [Bool.true_and, Bool.and_eq_true, decide_eq_true_eq]
  exact ⟨⟨⟨⟨⟨hlen, hroom⟩, hplace.1⟩, lay.region⟩, hplace.2.1⟩, hplace.2.2⟩

theorem copyIn_of_live (live : Live b) {buf : List UInt8} (hlen : buf.length ≤ MTU) :
    Inv (b.copyIn buf) ∧ (b.copyIn buf).waiting = b.waiting + buf.length := by
  have hroom := live.room
  have hidle := live.idle
  have hsizes : MINSIZE + MTU < BUFSIZE := by decide
  obtain ⟨inv, -, -, hw, -⟩ := copyIn_spec live.inv buf (by omega) (by
    -- only a buffer with nothing in flight could hold more, and then little is waiting
    by_cases h0 : b.enqueued = 0
    · have := hidle h0
      omega
    · omega)
  exact ⟨inv, hw⟩

theorem fits_copyIn {buf : List UInt8} (hw : (b.copyIn buf).waiting = b.waiting + buf.length) :
    (b.copyIn buf).Fits 0 ↔ b.Fits buf.length := by
  obtain ⟨alike, hend⟩ := copyIn_frame buf b
  rw [fits_alike alike hend, fits_iff, fits_iff, hw]
  simp only [Nat.add_zero, Nat.add_assoc]
  rfl

/-- An append leaves room for another frame just if the bytes fit; no assertion but the last one can
fail, and while all hold, the next append is made in a state as good as this one. -/
theorem tryQueueAiobuf_iff {fuel : ℕ} {buf : List UInt8} {rc : QueueRc} {b' : Aiobuf}
    (live : Live b) (hlen : 1 ≤ buf.length ∧ buf.length ≤ MTU)
    (h : b.tryQueueAiobuf fuel buf = some (rc, b')) :
    (b'.pending ≤ BUFSIZE - MTU ↔ b.Fits buf.length) ∧
      (b'.dbg = true ↔ b.Fits buf.length) ∧ (b'.dbg = true → Live b') := by
  obtain ⟨inv, hw⟩ := copyIn_of_live live hlen.2
  obtain ⟨alike, hend⟩ := copyIn_frame buf b
  have hdbg : (b.copyIn buf).dbg = true := alike.dbg.trans live.dbg
  have henq : (b.copyIn buf).enqueued = b.enqueued := alike.enqueued
  have sized : Sized b := fun r hr =>
    ⟨(live.inv.flight r hr).buf, (live.inv.flight r hr).nbytes, (live.inv.flight r hr).enqueued_ne⟩
  have hopened : b'.opened = true := (tryQueueAiobuf_honest sized h).opened.trans live.opened
  have hfits := fits_copyIn hw
  rw [tryQueueAiobuf, dbgAssert_of_true b (entryAsserts_of_live live hlen.1)] at h
  dsimp only at h
  have hpend := pending_eq inv.toLayout
  split_ifs at h with hwait
  · cases h
    have hroom := hwait.2.2
    have fits : b.Fits buf.length := hfits.1 (fits_of_room (by omega))
    exact ⟨iff_of_true hroom fits, iff_of_true hdbg fits,
      fun _ => ⟨inv, by omega, fun _ => hwait.1, hopened, hdbg⟩⟩
  · cases hf : forceWrite fuel (queueAiobuf false (b.copyIn buf)).1
      (queueAiobuf false (b.copyIn buf)).2 with
    | none => rw [hf] at h; cases h
    | some p =>
      obtain ⟨rc', b₂⟩ := p
      have q := (forceWrite_spec (queueAiobuf_spec inv false) hf).1
      obtain ⟨hd, hiff⟩ := queue_forceWrite_iff inv (fun h0 => by
        have hidle := live.idle (henq.symm.trans h0)
        have hsizes : MINSIZE + MTU ≤ BUFSIZE - MTU := by decide
        omega) hf
      rw [hf] at h
      cases h
      rw [hdbg] at hd
      have hlast : (b₂.dbgAssert (decide (b₂.pending ≤ BUFSIZE - MTU))).dbg = true ↔
          b₂.pending ≤ BUFSIZE - MTU := by
        rw [dbgAssert, hd, Bool.true_and, decide_eq_true_iff]
      refine ⟨hiff.trans hfits, hlast.trans (hiff.trans hfits), fun hall =>
        ⟨dbgAssert_inv q.inv _, ?_, fun he => ?_, hopened, hall⟩⟩
      · have := hlast.1 hall
        rwa [pending_eq q.inv.toLayout] at this
      · cases hrc : rc' with
        | zero => exact (q.zero hrc).2.trans_lt (by decide)
        | inProgress => exact absurd he (q.inProgress hrc)
        | error => exact absurd he (q.inv.dead (by rw [← q.neg, hrc]; rfl)).1
        | unexpected => exact absurd he (q.inv.dead (by rw [← q.neg, hrc]; rfl)).1

/-- `STAT_NBINS` of a verbose build. -/
def STAT_NBINS : ℕ := 11

/-- A verbose build, which counts batches by size, asserts that the bin is in range. -/
theorem bin_lt (lay : Layout b) : b.enqueued * (STAT_NBINS - 1) / BUFSIZE < STAT_NBINS := by
  have := lay.region
  apply Nat.div_lt_of_lt_mul
  simp only [STAT_NBINS, BUFSIZE] at *
  omega

end Asserts

/-! ## Reachable states -/

/-- The states of a buffer that appends lead to, under any schedule of the kernel: any number of
bytes up to a full frame at a time, whatever the calls before returned.  A failed assertion aborts
the daemon. -/
inductive Reached (sched : Schedule) (mem : ℕ → UInt8) : Aiobuf → Prop
  | fresh : Reached sched mem (fresh sched mem)
  | append {b b' : Aiobuf} {fuel : ℕ} {rc : QueueRc} (buf : List UInt8) :
      Reached sched mem b → 1 ≤ buf.length ∧ buf.length ≤ MTU →
      b.tryQueueAiobuf fuel buf = some (rc, b') → b'.dbg = true → Reached sched mem b'

theorem live_of_reached {sched : Schedule} {mem : ℕ → UInt8} {b : Aiobuf}
    (h : Reached sched mem b) : Live b := by
  induction h with
  | fresh => exact ⟨fresh_inv sched mem, by simp [fresh], fun _ => by simp [fresh, MINSIZE], rfl, rfl⟩
  | append buf _ hlen hrun hdbg ih => exact (tryQueueAiobuf_iff ih hlen hrun).2.2 hdbg

/-- From every reachable state, an append keeps all assertions just if the bytes fit. -/
theorem asserts_hold_iff (sched : Schedule) (mem : ℕ → UInt8) {b : Aiobuf}
    (reached : Reached sched mem b) (buf : List UInt8)
    (hlen : 1 ≤ buf.length ∧ buf.length ≤ MTU) (fuel : ℕ) (hf : 4 ≤ fuel) :
    ∃ rc b', b.tryQueueAiobuf fuel buf = some (rc, b') ∧
      (b'.dbg = true ∧ b'.pending ≤ BUFSIZE - MTU ↔ b.Fits buf.length) := by
  have live := live_of_reached reached
  obtain ⟨⟨rc, b'⟩, h, -⟩ := tryQueueAiobuf_total hf (zone_of_layout live.inv.toLayout) buf
    (hlen.2.trans (by decide))
  obtain ⟨hroom, hdbg, -⟩ := tryQueueAiobuf_iff live hlen h
  exact ⟨rc, b', h, fun ⟨hd, _⟩ => hdbg.1 hd, fun fits => ⟨hdbg.2 fits, hroom.2 fits⟩⟩

theorem asserts_hold_iff_one : ∃ rc b',
    (fresh ⟨fun _ => ⟨0, some .ENOSPC, 0, .complete⟩, fun _ _ => true⟩ fun _ => 0).tryQueueAiobuf 4
      [1] = some (rc, b') ∧ b'.dbg = true ∧ b'.pending ≤ BUFSIZE - MTU := by
  obtain ⟨rc, b', h, hiff⟩ := asserts_hold_iff ⟨fun _ => ⟨0, some .ENOSPC, 0, .complete⟩,
    fun _ _ => true⟩ (fun _ => 0) Reached.fresh [1] (by decide) 4 (by decide)
  exact ⟨rc, b', h, hiff.2 (fits_of_room (by decide))⟩

/-! ## A disk that fails late -/

section Doomed

variable {b : Aiobuf}

/-- No request ends well, neither the one in flight nor a later one. -/
structure Doomed (b : Aiobuf) : Prop where
  ending : b.ending ≠ some .complete
  fate : ∀ k, (b.sched.fate k).outcome ≠ .complete

theorem prepareNext_doomed (h : Settled b) (fate : ∀ k, (b.sched.fate k).outcome ≠ .complete) :
    Doomed b.prepareNext.2 ∧ b.prepareNext.2.pending = b.waiting := by
  have free : b.prepared.request = none := h.request
  have hp := pending_prepared h.toLayout
  rcases prepareNext_cases h with ⟨-, hn⟩ | ⟨-, -, r, c, hn, ho⟩ | ⟨-, -, c, hn⟩
  · rw [hn]
    exact ⟨⟨by simp [Aiobuf.ending, free], fate⟩, hp⟩
  · rw [hn]
    exact ⟨⟨by simpa [Aiobuf.ending, ho] using fate b.batch, fate⟩, hp⟩
  · rw [hn]
    exact ⟨⟨by simp [Aiobuf.ending, free], fate⟩, hp⟩

/-- Then nothing that is pending gets written. -/
theorem queueAiobuf_doomed (inv : Inv b) (doomed : Doomed b) (force : Bool) :
    Doomed (b.queueAiobuf force).2 ∧ (b.queueAiobuf force).2.pending = b.pending := by
  have forced : Doomed (b.queueAiobuf true).2 ∧ (b.queueAiobuf true).2.pending = b.pending := by
    by_cases he : b.enqueued = 0
    · rw [queueAiobuf, if_pos he, pending_eq inv.toLayout, he, Nat.zero_add]
      exact prepareNext_doomed (settled_of_enqueued_eq_zero inv he) doomed.fate
    · rcases queueAiobuf_forced inv he with ⟨hend, -⟩ | ⟨-, -, alike, hend⟩
      · exact absurd hend doomed.ending
      · exact ⟨⟨hend, by rw [alike.sched]; exact doomed.fate⟩, pending_alike alike⟩
  cases force with
  | true => exact forced
  | false =>
    rcases queueAiobuf_unforced inv with heq | ⟨-, alike, hend⟩
    · rwa [heq]
    · exact ⟨⟨by rw [hend]; exact doomed.ending, by rw [alike.sched]; exact doomed.fate⟩,
        pending_alike alike⟩

theorem forceWrite_doomed {fuel : ℕ} {rc : QueueRc} {p : QueueRc × Aiobuf} (inv : Inv b)
    (doomed : Doomed b) (h : b.forceWrite fuel rc = some p) :
    Doomed p.2 ∧ p.2.pending = b.pending := by
  induction fuel generalizing b rc with
  | zero => cases h
  | succ fuel ih =>
    rw [forceWrite] at h
    split_ifs at h
    · obtain ⟨doomed', hp⟩ := queueAiobuf_doomed inv doomed true
      obtain ⟨doomed'', hp'⟩ := ih (queueAiobuf_spec inv true).inv doomed' h
      exact ⟨doomed'', hp'.trans hp⟩
    · cases h
      exact ⟨doomed, rfl⟩

theorem tryQueueAiobuf_doomed {fuel : ℕ} {buf : List UInt8} {rc : QueueRc} {b' : Aiobuf}
    (live : Live b) (doomed : Doomed b) (hlen : 1 ≤ buf.length ∧ buf.length ≤ MTU)
    (h : b.tryQueueAiobuf fuel buf = some (rc, b')) :
    Doomed b' ∧ b'.pending = b.pending + buf.length := by
  obtain ⟨inv, hw⟩ := copyIn_of_live live hlen.2
  obtain ⟨alike, hend⟩ := copyIn_frame buf b
  have doomed₁ : Doomed (b.copyIn buf) :=
    ⟨by rw [hend]; exact doomed.ending, by rw [alike.sched]; exact doomed.fate⟩
  have hp : (b.copyIn buf).pending = b.pending + buf.length := by
    have henq : (b.copyIn buf).enqueued = b.enqueued := alike.enqueued
    rw [pending_eq inv.toLayout, pending_eq live.inv.toLayout, henq, hw, Nat.add_assoc]
  rw [tryQueueAiobuf, dbgAssert_of_true b (entryAsserts_of_live live hlen.1)] at h
  dsimp only at h
  split_ifs at h
  · cases h
    exact ⟨doomed₁, hp⟩
  · obtain ⟨doomed₂, hp₂⟩ := queueAiobuf_doomed inv doomed₁ false
    obtain ⟨p, hf, heq⟩ := Option.map_eq_some_iff.1 h
    obtain ⟨doomed₃, hp₃⟩ := forceWrite_doomed (queueAiobuf_spec inv false).inv doomed₂ hf
    cases heq
    exact ⟨⟨doomed₃.ending, doomed₃.fate⟩, hp₃.trans (hp₂.trans hp)⟩

/-- A disk that accepts every batch, stays busy for long, and reports an error in the end. -/
def busyDisk : Schedule := ⟨fun _ => ⟨0, none, 100000, .failed .ENOSPC⟩, fun _ _ => false⟩

/-- The buffer fills up with whole frames until the next one would leave no room. -/
theorem reached_full (n : ℕ) (h : n * MTU ≤ BUFSIZE - MTU) :
    ∃ b, Reached busyDisk (fun _ => 0) b ∧ Doomed b ∧ b.pending = n * MTU := by
  induction n with
  | zero =>
    exact ⟨_, Reached.fresh, ⟨by simp [Aiobuf.ending, fresh], fun _ => by simp [fresh, busyDisk]⟩,
      by simp [pending, fresh]⟩
  | succ n ih =>
    rw [Nat.succ_mul] at h ⊢
    obtain ⟨b, reached, doomed, hp⟩ := ih (by omega)
    have live := live_of_reached reached
    have hlen : (List.replicate MTU (0 : UInt8)).length = MTU := List.length_replicate
    obtain ⟨⟨rc, b'⟩, hrun, -⟩ := tryQueueAiobuf_total (Nat.le_refl 4)
      (zone_of_layout live.inv.toLayout) (List.replicate MTU 0) (by rw [hlen]; decide)
    have hb : 1 ≤ (List.replicate MTU (0 : UInt8)).length ∧
        (List.replicate MTU (0 : UInt8)).length ≤ MTU := by rw [hlen]; decide
    obtain ⟨doomed', hp'⟩ := tryQueueAiobuf_doomed live doomed hb hrun
    rw [hlen, hp] at hp'
    obtain ⟨-, hdbg, -⟩ := tryQueueAiobuf_iff live hb hrun
    have fits : b.Fits (List.replicate MTU (0 : UInt8)).length := by
      refine fits_of_room ?_
      rw [hlen, ← pending_eq live.inv.toLayout, hp]
      exact h
    exact ⟨b', reached.append _ hb hrun (hdbg.2 fits), doomed', hp'⟩

end Doomed

/-- The 7009th whole frame fills the buffer; the error that ends the wait fails the assertion. -/
theorem not_asserts_hold : ¬∀ (sched : Schedule) (mem : ℕ → UInt8) (b : Aiobuf),
    Reached sched mem b → ∀ buf : List UInt8, 1 ≤ buf.length ∧ buf.length ≤ MTU →
      ∃ fuel rc b', b.tryQueueAiobuf fuel buf = some (rc, b') ∧ b'.dbg = true ∧
        b'.pending ≤ BUFSIZE - MTU := by
  intro hall
  obtain ⟨b, reached, doomed, hp⟩ := reached_full 7008 (by decide)
  have live := live_of_reached reached
  have hlen : (List.replicate MTU (0 : UInt8)).length = MTU := List.length_replicate
  have hb : 1 ≤ (List.replicate MTU (0 : UInt8)).length ∧
      (List.replicate MTU (0 : UInt8)).length ≤ MTU := by rw [hlen]; decide
  obtain ⟨fuel, rc, b', hrun, hdbg, -⟩ := hall busyDisk _ b reached (List.replicate MTU 0) hb
  have fits := (tryQueueAiobuf_iff live hb hrun).2.1.1 hdbg
  refine doomed.ending (fits.first ?_)
  rw [← pending_eq live.inv.toLayout, hp, hlen]
  decide

end Aiobuf

end Tesd
