import Tesd.Aiobuf

/-!
# The loops over a write buffer end

Every forced call of `s_queue_aiobuf` that leaves a batch in flight has moved the tail on towards
the cursor, which it reaches after at most one turn around the end of the buffer zone.  So the loops
of `s_try_queue_aiobuf` and `s_flush` end after a bounded number of rounds, whatever the buffer
holds and whatever the kernel does.  Neither forgets an error, or makes one up.
-/

namespace Tesd

namespace Aiobuf

/-! ## Fields that the small steps leave alone -/

section Fields

variable (b : Aiobuf) (c : Bool)

@[simp] theorem dbgAssert_tail : (b.dbgAssert c).tail = b.tail := rfl
@[simp] theorem dbgAssert_cur : (b.dbgAssert c).cur = b.cur := rfl
@[simp] theorem dbgAssert_waiting : (b.dbgAssert c).waiting = b.waiting := rfl
@[simp] theorem dbgAssert_enqueued : (b.dbgAssert c).enqueued = b.enqueued := rfl
@[simp] theorem dbgAssert_size : (b.dbgAssert c).size = b.size := rfl
@[simp] theorem dbgAssert_request : (b.dbgAssert c).request = b.request := rfl
@[simp] theorem dbgAssert_lost : (b.dbgAssert c).lost = b.lost := rfl

@[simp] theorem tick_tail : b.tick.tail = b.tail := by unfold tick; split <;> rfl
@[simp] theorem tick_cur : b.tick.cur = b.cur := by unfold tick; split <;> rfl
@[simp] theorem tick_waiting : b.tick.waiting = b.waiting := by unfold tick; split <;> rfl
@[simp] theorem tick_enqueued : b.tick.enqueued = b.enqueued := by unfold tick; split <;> rfl
@[simp] theorem tick_size : b.tick.size = b.size := by unfold tick; split <;> rfl
@[simp] theorem tick_mem : b.tick.mem = b.mem := by unfold tick; split <;> rfl
@[simp] theorem tick_sched : b.tick.sched = b.sched := by unfold tick; split <;> rfl
@[simp] theorem tick_opened : b.tick.opened = b.opened := by unfold tick; split <;> rfl
@[simp] theorem tick_lost : b.tick.lost = b.lost := by unfold tick; split <;> rfl

end Fields

/-- The tail and the cursor are inside the buffer zone. -/
structure Zone (b : Aiobuf) : Prop where
  tail_lt : b.tail < BUFSIZE
  region : b.tail + b.enqueued ≤ BUFSIZE
  cur_lt : b.cur < BUFSIZE

/-- Nothing that the task keeps in the buffer zone's record has changed. -/
structure Still (b b' : Aiobuf) : Prop where
  tail : b'.tail = b.tail
  cur : b'.cur = b.cur
  waiting : b'.waiting = b.waiting
  enqueued : b'.enqueued = b.enqueued
  mem : b'.mem = b.mem

theorem still_refl (b : Aiobuf) : Still b b := ⟨rfl, rfl, rfl, rfl, rfl⟩

theorem still_trans {a b c : Aiobuf} (h : Still a b) (h' : Still b c) : Still a c :=
  ⟨h'.tail.trans h.tail, h'.cur.trans h.cur, h'.waiting.trans h.waiting,
    h'.enqueued.trans h.enqueued, h'.mem.trans h.mem⟩

theorem still_tick (b : Aiobuf) : Still b b.tick := by constructor <;> simp

theorem zone_of_still {b b' : Aiobuf} (h : Still b b') (z : Zone b) : Zone b' := by
  refine ⟨?_, ?_, ?_⟩
  · rw [h.tail]; exact z.tail_lt
  · rw [h.tail, h.enqueued]; exact z.region
  · rw [h.cur]; exact z.cur_lt

/-- Batches that can still be queued before the tail reaches the cursor. -/
def rounds (b : Aiobuf) : ℕ :=
  if b.cur = b.releasedTail then 0 else if b.cur < b.releasedTail then 2 else 1

theorem rounds_le (b : Aiobuf) : b.rounds ≤ 2 := by
  unfold rounds
  split_ifs <;> omega

theorem rounds_of_still {b b' : Aiobuf} (h : Still b b') : b'.rounds = b.rounds := by
  unfold rounds releasedTail
  rw [h.tail, h.cur, h.enqueued]

theorem releasedTail_lt_of_zone {b : Aiobuf} (z : Zone b) : b.releasedTail < BUFSIZE := by
  have := z.region
  unfold releasedTail
  split_ifs with h
  · decide
  · omega

/-! ## One call -/

theorem still_aioError (b : Aiobuf) : Still b b.aioError.2 := by
  unfold aioError
  split
  · exact ⟨rfl, rfl, rfl, rfl, rfl⟩
  · split_ifs
    · constructor <;> simp
    · split <;> exact ⟨rfl, rfl, rfl, rfl, rfl⟩

theorem still_aioSuspend (b : Aiobuf) : Still b b.aioSuspend.2 := by
  unfold aioSuspend
  constructor <;> simp

theorem still_aioReturn (b : Aiobuf) : Still b b.aioReturn.2 := by
  unfold aioReturn
  split
  · exact ⟨rfl, rfl, rfl, rfl, rfl⟩
  · split <;> exact ⟨rfl, rfl, rfl, rfl, rfl⟩

theorem still_aioWrite (again : ℕ) (b : Aiobuf) : Still b (b.aioWrite again).2 := by
  induction again generalizing b with
  | zero =>
    simp only [aioWrite]
    split
    · exact ⟨rfl, rfl, rfl, rfl, rfl⟩
    · split_ifs <;> exact ⟨rfl, rfl, rfl, rfl, rfl⟩
  | succ again ih => exact still_trans (still_tick b) (ih b.tick)

theorem queueAsIs_still (b : Aiobuf) :
    Still b b.queueAsIs.2 ∧ (b.queueAsIs.1 = .inProgress → b.enqueued ≠ 0) := by
  unfold queueAsIs
  dsimp only
  split_ifs with he
  · exact ⟨⟨rfl, rfl, rfl, rfl, rfl⟩, by simp⟩
  · have h := still_aioWrite
      ((b.dbgAssert (decide (b.tail ≠ BUFSIZE))).sched.fate
        (b.dbgAssert (decide (b.tail ≠ BUFSIZE))).batch).again
      (b.dbgAssert (decide (b.tail ≠ BUFSIZE)))
    split
    · rename_i hw
      rw [hw] at h
      exact ⟨⟨h.tail, h.cur, h.waiting, h.enqueued, h.mem⟩, by simp⟩
    · rename_i hw
      rw [hw] at h
      exact ⟨⟨h.tail, h.cur, h.waiting, h.enqueued, h.mem⟩, fun _ => he⟩

/-- The next batch brings the tail closer to the cursor. -/
theorem prepareNext_rounds {b : Aiobuf} (z : Zone b) :
    Zone b.prepareNext.2 ∧
      (b.prepareNext.1 = .inProgress → b.prepareNext.2.rounds < b.rounds) := by
  have ht := releasedTail_lt_of_zone z
  have hc := z.cur_lt
  unfold prepareNext
  dsimp only
  generalize hb : dbgAssert _ _ = b'
  obtain ⟨st, hne⟩ := queueAsIs_still b'
  have htail : b'.tail = b.releasedTail := by rw [← hb]; rfl
  have hcur : b'.cur = b.cur := by rw [← hb]; rfl
  have henq : b'.enqueued = b.nextBatch b.releasedTail := by rw [← hb]; rfl
  constructor
  · refine zone_of_still st ⟨by omega, ?_, by omega⟩
    rw [htail, henq]
    unfold nextBatch
    split_ifs <;> omega
  · intro hrc
    have he := hne hrc
    rw [rounds_of_still st]
    unfold rounds
    rw [hcur, show b'.releasedTail =
      if b.releasedTail + b.nextBatch b.releasedTail = BUFSIZE then 0
      else b.releasedTail + b.nextBatch b.releasedTail by rw [releasedTail, htail, henq]]
    rw [henq] at he
    unfold nextBatch at he ⊢
    split_ifs at * <;> omega

/-- The part of `s_queue_aiobuf` that is reached when the request is no longer in progress. -/
def complete (b : Aiobuf) : QueueRc × Aiobuf := b.aioError.2.checkCompletion b.aioError.1

/-- `aio_return` has no errno for a request that `aio_error` found done, so that a batch is never
requeued as it is. -/
theorem complete_cases (b : Aiobuf) :
    b.complete.1.neg = true ∧ Still b b.complete.2 ∨
      ∃ b', Still b b' ∧ b.complete = b'.prepareNext := by
  have hs := still_aioError b
  unfold complete
  cases hrc : b.aioError.1 with
  | inProgress => exact Or.inl ⟨rfl, hs.tail, hs.cur, hs.waiting, hs.enqueued, hs.mem⟩
  | errno e => exact Or.inl ⟨rfl, hs⟩
  | zero =>
    have hret : ∃ n, b.aioError.2.aioReturn = (.ok n, b.aioError.2.aioReturn.2) := by
      unfold aioError at hrc ⊢
      split at hrc
      · cases hrc
      · rename_i r hr
        split_ifs at hrc with hp
        cases ho : r.outcome with
        | failed e => simp [ho] at hrc
        | _ => exact ⟨_, by simp [hp, aioReturn]; rfl⟩
    obtain ⟨n, hn⟩ := hret
    have hs' := still_trans hs (still_aioReturn b.aioError.2)
    unfold checkCompletion
    rw [hn]
    dsimp only
    split_ifs
    · exact Or.inl ⟨rfl, hs'.tail, hs'.cur, hs'.waiting, hs'.enqueued, hs'.mem⟩
    · exact Or.inr ⟨_, hs', rfl⟩

/-- The cases of one call: the batch is still in flight and the call does not wait, or an error is
reported, or the next batch is prepared. -/
theorem queueAiobuf_cases (force : Bool) (b : Aiobuf) :
    (force = false ∧ (b.queueAiobuf force).1 = .inProgress ∧ Still b (b.queueAiobuf force).2) ∨
      ((b.queueAiobuf force).1.neg = true ∧ Still b (b.queueAiobuf force).2) ∨
      ∃ b', Still b b' ∧ b.queueAiobuf force = b'.prepareNext := by
  have hs := still_aioError b
  by_cases he : b.enqueued = 0
  · exact Or.inr (Or.inr ⟨b, still_refl b, by rw [queueAiobuf, if_pos he]⟩)
  · cases hrc : b.aioError.1 with
    | inProgress =>
      have heq : b.aioError = (.inProgress, b.aioError.2) := by rw [← hrc]
      cases force with
      | false =>
        have : b.queueAiobuf false = (.inProgress, b.aioError.2) := by
          rw [queueAiobuf, if_neg he, heq]
          rfl
        rw [this]
        exact Or.inl ⟨rfl, rfl, hs⟩
      | true =>
        have : b.queueAiobuf true = b.aioError.2.aioSuspend.2.complete := by
          rw [queueAiobuf, if_neg he, heq]
          rfl
        rw [this]
        have hs' := still_trans hs (still_aioSuspend b.aioError.2)
        rcases complete_cases b.aioError.2.aioSuspend.2 with ⟨hneg, h⟩ | ⟨b', h, hb'⟩
        · exact Or.inr (Or.inl ⟨hneg, still_trans hs' h⟩)
        · exact Or.inr (Or.inr ⟨b', still_trans hs' h, hb'⟩)
    | _ =>
      have : b.queueAiobuf force = b.complete := by
        rw [queueAiobuf, if_neg he, complete]
        split
        · rename_i h
          rw [h] at hrc
          cases hrc
        · rename_i h
          rw [h]
      rw [this]
      exact Or.inr (complete_cases b)

theorem zone_queueAiobuf {b : Aiobuf} (z : Zone b) (force : Bool) :
    Zone (b.queueAiobuf force).2 := by
  rcases queueAiobuf_cases force b with ⟨-, -, h⟩ | ⟨-, h⟩ | ⟨b', h, hb'⟩
  · exact zone_of_still h z
  · exact zone_of_still h z
  · rw [hb']
    exact (prepareNext_rounds (zone_of_still h z)).1

/-- A forced call that leaves a batch in flight has used up a round. -/
theorem rounds_queueAiobuf {b : Aiobuf} (z : Zone b)
    (h : (b.queueAiobuf true).1 = .inProgress) : (b.queueAiobuf true).2.rounds < b.rounds := by
  rcases queueAiobuf_cases true b with ⟨hf, -⟩ | ⟨hneg, -⟩ | ⟨b', hs, hb'⟩
  · cases hf
  · rw [h] at hneg
    cases hneg
  · rw [hb'] at h ⊢
    rw [← rounds_of_still hs]
    exact (prepareNext_rounds (zone_of_still hs z)).2 h

/-! ## Whole loops -/

/-- The loop of `s_try_queue_aiobuf` ends. -/
theorem forceWrite_total {fuel : ℕ} (jobrc : QueueRc) {b : Aiobuf} (z : Zone b)
    (hf : b.rounds + 2 ≤ fuel) :
    ∃ p, b.forceWrite fuel jobrc = some p ∧ Zone p.2 := by
  induction fuel generalizing jobrc b with
  | zero => omega
  | succ fuel ih =>
    rw [forceWrite]
    split_ifs with hc
    · have z' := zone_queueAiobuf z true
      show ∃ p, (b.queueAiobuf true).2.forceWrite fuel (b.queueAiobuf true).1 = some p ∧ Zone p.2
      by_cases hp : (b.queueAiobuf true).1 = .inProgress
      · exact ih _ z' (by have := rounds_queueAiobuf z hp; omega)
      · -- the loop condition fails at the next turn
        obtain ⟨fuel, rfl⟩ : ∃ n, fuel = n + 1 := ⟨fuel - 1, by omega⟩
        exact ⟨_, by rw [forceWrite, if_neg fun h => hp h.2], z'⟩
    · exact ⟨_, rfl, z⟩

/-- The loop of `s_flush` ends. -/
theorem flushAiobuf_total {fuel : ℕ} {b : Aiobuf} (z : Zone b) (hf : b.rounds + 1 ≤ fuel) :
    ∃ b', b.flushAiobuf fuel = some b' := by
  induction fuel generalizing b with
  | zero => omega
  | succ fuel ih =>
    rw [flushAiobuf]
    split
    · rename_i b' h
      have z' := zone_queueAiobuf z true
      have hr := rounds_queueAiobuf z (by rw [h])
      rw [h] at z' hr
      exact ih z' (by dsimp only at hr; omega)
    · exact ⟨_, rfl⟩

/-- Copying changes nothing but memory; meanwhile the kernel goes on. -/
theorem memcpy_frame (xs : List UInt8) (dst : ℕ) (b : Aiobuf) :
    ∃ m f r c, b.memcpy xs dst = { b with mem := m, file := f, request := r, clock := c } := by
  induction xs generalizing dst b with
  | nil => exact ⟨b.mem, b.file, b.request, b.clock, rfl⟩
  | cons x xs ih =>
    obtain ⟨m', f', r', c', h⟩ :=
      ih (dst + 1) { b with mem := Function.update b.mem dst x }.tick
    rw [memcpy, h]
    unfold tick
    split
    · exact ⟨m', f', r', c', rfl⟩
    · exact ⟨m', f', r', c', rfl⟩

/-- A copied buffer may be longer than a frame, but not than the buffer zone. -/
theorem zone_copyIn {b : Aiobuf} (z : Zone b) {buf : List UInt8} (hlen : buf.length ≤ BUFSIZE) :
    Zone (b.copyIn buf) := by
  have hc := z.cur_lt
  unfold copyIn
  dsimp only
  split_ifs with hs
  · obtain ⟨m, f, r, c, h⟩ := memcpy_frame buf b.cur b
    rw [h]
    exact ⟨z.tail_lt, z.region, by dsimp only; omega⟩
  · obtain ⟨m, f, r, c, h⟩ := memcpy_frame (buf.take (BUFSIZE - b.cur)) b.cur b
    obtain ⟨m', f', r', c', h'⟩ := memcpy_frame (buf.drop (BUFSIZE - b.cur)) 0
      (b.memcpy (buf.take (BUFSIZE - b.cur)) b.cur)
    rw [h', h]
    exact ⟨z.tail_lt, z.region, by dsimp only; omega⟩

/-- `s_try_queue_aiobuf` returns, whatever was queued before. -/
theorem tryQueueAiobuf_total {fuel : ℕ} (hf : 4 ≤ fuel) {b : Aiobuf} (z : Zone b)
    (buf : List UInt8) (hlen : buf.length ≤ BUFSIZE) :
    ∃ p, b.tryQueueAiobuf fuel buf = some p ∧ Zone p.2 := by
  have z₀ : Zone (b.dbgAssert (b.entryAsserts buf.length)) := ⟨z.tail_lt, z.region, z.cur_lt⟩
  have z' := zone_copyIn z₀ hlen
  rw [tryQueueAiobuf]
  dsimp only
  split_ifs with hc
  · exact ⟨_, rfl, z'⟩
  · generalize copyIn buf (b.dbgAssert (b.entryAsserts buf.length)) = b' at z'
    have hr := rounds_le (b'.queueAiobuf false).2
    obtain ⟨p, hp, zp⟩ := forceWrite_total (b'.queueAiobuf false).1 (zone_queueAiobuf z' false)
      (Nat.le_trans (Nat.add_le_add_right hr 2) hf)
    rw [hp]
    exact ⟨_, rfl, ⟨zp.tail_lt, zp.region, zp.cur_lt⟩⟩

/-! ## Errors -/

/-- A request in flight is for the bytes queued last. -/
def Sized (b : Aiobuf) : Prop :=
  ∀ r, b.request = some r → r.buf = b.tail ∧ r.nbytes = b.enqueued ∧ b.enqueued ≠ 0

/-- What a call leaves: the value is negative only if something was lost, and what was lost stays
lost. -/
structure Honest (b : Aiobuf) (rc : QueueRc) (b' : Aiobuf) : Prop where
  sized : Sized b'
  opened : b'.opened = b.opened
  stays : b.lost = true → b'.lost = true
  neg : rc.neg = true → b'.lost = true

theorem sized_of_none {b : Aiobuf} (free : b.request = none) : Sized b := fun r hr => by
  rw [free] at hr
  cases hr

theorem honest_trans {b b' b'' : Aiobuf} {rc rc' : QueueRc} (h : Honest b rc b')
    (h' : Honest b' rc' b'') : Honest b rc' b'' :=
  ⟨h'.sized, h'.opened.trans h.opened, fun hl => h'.stays (h.stays hl), h'.neg⟩

theorem sized_tick {b : Aiobuf} (sized : Sized b) : Sized b.tick := by
  intro r hr
  rw [tick_enqueued, tick_tail]
  unfold tick at hr
  split at hr
  next hnone =>
    rw [hnone] at hr
    cases hr
  next r' hr' =>
    obtain rfl := Option.some.inj hr
    exact sized r' hr'

/-- `aio_write` fails only with a loss, and makes a request for what is queued. -/
theorem aioWrite_honest (again : ℕ) {b : Aiobuf} (free : b.request = none) (he : b.enqueued ≠ 0) :
    Sized (b.aioWrite again).2 ∧ (b.aioWrite again).2.opened = b.opened ∧
      (b.lost = true → (b.aioWrite again).2.lost = true) ∧
      ((b.aioWrite again).1.isSome = true → (b.aioWrite again).2.lost = true) := by
  induction again generalizing b with
  | zero =>
    simp only [aioWrite]
    split
    · exact ⟨sized_of_none free, rfl, fun _ => rfl, fun _ => rfl⟩
    · split_ifs
      · exact ⟨sized_of_none free, rfl, fun _ => rfl, fun _ => rfl⟩
      · refine ⟨fun r hr => ?_, rfl, id, fun h => by cases h⟩
        obtain rfl := Option.some.inj hr
        exact ⟨rfl, rfl, he⟩
  | succ again ih =>
    have hfree : b.tick.request = none := by
      unfold tick
      rw [free]
    have h := ih hfree (by rwa [tick_enqueued])
    rwa [tick_lost, tick_opened] at h

theorem queueAsIs_honest {b : Aiobuf} (free : b.request = none) :
    Honest b b.queueAsIs.1 b.queueAsIs.2 := by
  unfold queueAsIs
  dsimp only
  split_ifs with he
  · exact ⟨sized_of_none free, rfl, id, fun h => by cases h⟩
  · obtain ⟨sized, opened, stays, fails⟩ := aioWrite_honest
      ((b.dbgAssert (decide (b.tail ≠ BUFSIZE))).sched.fate
        (b.dbgAssert (decide (b.tail ≠ BUFSIZE))).batch).again
      (b := b.dbgAssert (decide (b.tail ≠ BUFSIZE))) free he
    split
    next hw =>
      rw [hw] at sized opened stays fails
      exact ⟨sized, opened, stays, fun _ => fails rfl⟩
    next hw =>
      rw [hw] at sized opened stays
      exact ⟨sized, opened, stays, fun h => by cases h⟩

theorem prepareNext_honest {b : Aiobuf} (free : b.request = none) :
    Honest b b.prepareNext.1 b.prepareNext.2 := by
  unfold prepareNext
  dsimp only
  generalize hb : dbgAssert _ _ = b'
  have hfree : b'.request = none := by rw [← hb]; exact free
  have hlost : b'.lost = b.lost := by rw [← hb]; rfl
  have hopened : b'.opened = b.opened := by rw [← hb]; rfl
  have h := queueAsIs_honest hfree
  exact ⟨h.sized, h.opened.trans hopened, fun hl => h.stays (hlost.trans hl), h.neg⟩

/-- A request that has ended without an errno is short just if something was lost. -/
theorem checkCompletion_honest {b b' : Aiobuf} {r : Request} {n : ℕ}
    (henq : b'.enqueued = b.enqueued) (hopened : b'.opened = b.opened) (hlost : b'.lost = b.lost)
    (hbytes : r.nbytes = b.enqueued)
    (hret : b'.aioReturn = (.ok n, { b' with
      request := none, lost := b'.lost || decide (n ≠ r.nbytes) })) :
    Honest b (b'.checkCompletion .zero).1 (b'.checkCompletion .zero).2 := by
  have stays : b.lost = true → (b'.lost || decide (n ≠ r.nbytes)) = true := by
    intro hl
    rw [hlost, hl, Bool.true_or]
  unfold checkCompletion
  rw [hret]
  dsimp only
  split_ifs with hne
  · rw [henq, ← hbytes] at hne
    refine ⟨sized_of_none rfl, hopened, stays, fun _ => ?_⟩
    show (b'.lost || decide (n ≠ r.nbytes)) = true
    rw [decide_eq_true hne, Bool.or_true]
  · have h := prepareNext_honest (b := { b' with
      request := none, lost := b'.lost || decide (n ≠ r.nbytes) }) rfl
    exact ⟨h.sized, h.opened.trans hopened, fun hl => h.stays (stays hl), h.neg⟩

theorem complete_honest {b : Aiobuf} (sized : Sized b)
    (done : ∀ r, b.request = some r → r.polls = 0) : Honest b b.complete.1 b.complete.2 := by
  unfold complete aioError
  cases hr : b.request with
  | none => exact ⟨sized_of_none rfl, rfl, fun _ => rfl, fun _ => rfl⟩
  | some r =>
    obtain ⟨hbuf, hbytes, he⟩ := sized r hr
    dsimp only
    rw [if_neg (not_not.2 (done r hr))]
    cases ho : r.outcome with
    | failed e =>
      refine ⟨fun r' hr' => ?_, rfl, fun _ => rfl, fun _ => rfl⟩
      obtain rfl := Option.some.inj hr'
      exact ⟨hbuf, hbytes, he⟩
    | _ =>
      refine checkCompletion_honest (n := r.count) rfl rfl rfl hbytes ?_
      unfold aioReturn Request.count
      dsimp only
      rw [ho]

theorem aioError_honest {b : Aiobuf} (sized : Sized b) (polls : ∃ r, b.request = some r ∧ r.polls ≠ 0) :
    b.aioError = (.inProgress, b.aioError.2) ∧ Honest b .inProgress b.aioError.2 := by
  obtain ⟨r, hr, hp⟩ := polls
  have heq : b.aioError =
      (.inProgress, { b with request := some { r with polls := r.polls - 1 } }.tick) := by
    unfold aioError
    rw [hr]
    exact if_pos hp
  rw [heq]
  refine ⟨rfl, sized_tick fun r' hr' => ?_, ?_, fun hl => ?_, fun h => by cases h⟩
  · obtain rfl := Option.some.inj hr'
    exact sized r hr
  · rw [tick_opened]
  · rw [tick_lost]
    exact hl

theorem queueAiobuf_honest {b : Aiobuf} (sized : Sized b) (force : Bool) :
    Honest b (b.queueAiobuf force).1 (b.queueAiobuf force).2 := by
  by_cases he : b.enqueued = 0
  · have free : b.request = none := by
      cases hr : b.request with
      | none => rfl
      | some r => exact absurd he (sized r hr).2.2
    rw [queueAiobuf, if_pos he]
    exact prepareNext_honest free
  · by_cases polls : ∃ r, b.request = some r ∧ r.polls ≠ 0
    · obtain ⟨heq, h⟩ := aioError_honest sized polls
      rw [queueAiobuf, if_neg he, heq]
      cases force with
      | false => exact h
      | true =>
        have hs : Honest b .inProgress b.aioError.2.aioSuspend.2 := by
          refine honest_trans h ⟨sized_tick fun r hr => ?_, ?_, fun hl => ?_, fun hneg => by
            cases hneg⟩
          · obtain ⟨r', hr', rfl⟩ := Option.map_eq_some_iff.1 hr
            exact h.sized r' hr'
          · show Aiobuf.opened (tick _) = _
            rw [tick_opened]
          · show Aiobuf.lost (tick _) = true
            rw [tick_lost]
            exact hl
        refine honest_trans hs (complete_honest hs.sized fun r hr => ?_)
        change Aiobuf.request (tick _) = some r at hr
        unfold tick at hr
        split at hr
        next hnone =>
          rw [hnone] at hr
          cases hr
        next r' hr' =>
          obtain ⟨r'', -, rfl⟩ := Option.map_eq_some_iff.1 hr'
          obtain rfl := Option.some.inj hr
          rfl
    · have done : ∀ r, b.request = some r → r.polls = 0 := by
        intro r hr
        by_contra hp
        exact polls ⟨r, hr, hp⟩
      have heq : b.queueAiobuf force = b.complete := by
        have hnot : b.aioError.1 ≠ .inProgress := by
          unfold aioError
          cases hr : b.request with
          | none => exact fun h => by cases h
          | some r =>
            dsimp only
            rw [if_neg (not_not.2 (done r hr))]
            split <;> exact fun h => by cases h
        rw [queueAiobuf, if_neg he, complete]
        split
        next h => exact absurd (congrArg Prod.fst h) hnot
        next h => rw [h]
      rw [heq]
      exact complete_honest sized done

theorem forceWrite_honest {fuel : ℕ} {b₀ b b' : Aiobuf} {jobrc rc : QueueRc}
    (h : Honest b₀ jobrc b) (hrun : b.forceWrite fuel jobrc = some (rc, b')) :
    Honest b₀ rc b' := by
  induction fuel generalizing jobrc b with
  | zero => cases hrun
  | succ fuel ih =>
    rw [forceWrite] at hrun
    split_ifs at hrun
    · exact ih (honest_trans h (queueAiobuf_honest h.sized true)) hrun
    · obtain ⟨rfl, rfl⟩ := Prod.mk.inj (Option.some.inj hrun)
      exact h

theorem flushAiobuf_honest {fuel : ℕ} {b b' : Aiobuf} (sized : Sized b)
    (hrun : b.flushAiobuf fuel = some b') :
    b'.opened = b.opened ∧ (b.lost = true → b'.lost = true) := by
  induction fuel generalizing b with
  | zero => cases hrun
  | succ fuel ih =>
    have h := queueAiobuf_honest sized true
    rw [flushAiobuf] at hrun
    split at hrun
    next hq =>
      rw [hq] at h
      obtain ⟨hopened, hlost⟩ := ih h.sized hrun
      exact ⟨hopened.trans h.opened, fun hl => hlost (h.stays hl)⟩
    next hq =>
      rw [hq] at h
      obtain rfl := Option.some.inj hrun
      exact ⟨h.opened, h.stays⟩

theorem sized_memcpy (xs : List UInt8) (dst : ℕ) {b : Aiobuf} (sized : Sized b) :
    Sized (b.memcpy xs dst) := by
  induction xs generalizing dst b with
  | nil => exact sized
  | cons x xs ih =>
    rw [memcpy]
    exact ih (dst + 1) (sized_tick sized)

theorem copyIn_honest {b : Aiobuf} (sized : Sized b) (buf : List UInt8) :
    Honest b .zero (b.copyIn buf) := by
  have hframe : (b.copyIn buf).opened = b.opened ∧ (b.copyIn buf).lost = b.lost := by
    unfold copyIn
    dsimp only
    split_ifs
    · obtain ⟨m, f, r, c, h⟩ := memcpy_frame buf b.cur b
      rw [h]
      exact ⟨rfl, rfl⟩
    · obtain ⟨m, f, r, c, h⟩ := memcpy_frame (buf.take (BUFSIZE - b.cur)) b.cur b
      obtain ⟨m', f', r', c', h'⟩ := memcpy_frame (buf.drop (BUFSIZE - b.cur)) 0
        (b.memcpy (buf.take (BUFSIZE - b.cur)) b.cur)
      rw [h', h]
      exact ⟨rfl, rfl⟩
  refine ⟨?_, hframe.1, fun hl => hframe.2.trans hl, fun h => by cases h⟩
  unfold copyIn
  dsimp only
  split_ifs
  · exact sized_memcpy _ _ sized
  · exact sized_memcpy _ _ (sized_memcpy _ _ sized)

/-- `s_try_queue_aiobuf` returns a negative value only if something was lost. -/
theorem tryQueueAiobuf_honest {fuel : ℕ} {buf : List UInt8} {b b' : Aiobuf} {rc : QueueRc}
    (sized : Sized b) (hrun : b.tryQueueAiobuf fuel buf = some (rc, b')) : Honest b rc b' := by
  have hcopy : Honest b .zero ((b.dbgAssert (b.entryAsserts buf.length)).copyIn buf) := by
    have sized' : Sized (b.dbgAssert (b.entryAsserts buf.length)) := sized
    have h := copyIn_honest sized' buf
    exact ⟨h.sized, h.opened, h.stays, h.neg⟩
  rw [tryQueueAiobuf] at hrun
  dsimp only at hrun
  split_ifs at hrun
  · obtain ⟨rfl, rfl⟩ := Prod.mk.inj (Option.some.inj hrun)
    exact hcopy
  · obtain ⟨⟨rc', b₁⟩, hforce, heq⟩ := Option.map_eq_some_iff.1 hrun
    obtain ⟨rfl, rfl⟩ := Prod.mk.inj heq
    have h := forceWrite_honest (honest_trans hcopy (queueAiobuf_honest hcopy.sized false)) hforce
    exact ⟨h.sized, h.opened, h.stays, h.neg⟩

end Aiobuf

end Tesd
