import Tesd.AiobufTermination

/-!
# Two write buffers in step

A request covers only bytes that were copied to the buffer zone since it was empty, so what an
earlier job left there is never read.  Two buffers that differ in such bytes alone, and in the
assertions that have failed, go through the same states.
-/

namespace Tesd

namespace Aiobuf

/-- The buffer with another memory behind it, and another record of its assertions. -/
def atop (m : ℕ → UInt8) (d : Bool) (b : Aiobuf) : Aiobuf := { b with mem := m, dbg := d }

/-- The memories agree wherever bytes have been copied to: everywhere once the cursor has been
around, and up to the cursor before. -/
def Agree (m : ℕ → UInt8) (b : Aiobuf) : Prop :=
  (∀ i < BUFSIZE, m i = b.mem i) ∨ (b.tail + b.enqueued ≤ b.cur ∧ ∀ i < b.cur, m i = b.mem i)

/-- The memories agree on the bytes of the request in flight. -/
def SameFlight (m : ℕ → UInt8) (b : Aiobuf) : Prop :=
  ∀ r, b.request = some r → ∀ i < r.nbytes, m (r.buf + i) = b.mem (r.buf + i)

/-- Both buffers are in use, and the second is the first one but for stale bytes. -/
structure Twins (b b' : Aiobuf) : Prop where
  zone : Zone b
  sized : Sized b
  opened : b.opened = true
  stale : ∃ m d, b' = b.atop m d ∧ Agree m b

variable {m : ℕ → UInt8} {b : Aiobuf}

theorem sameFlight_of_agree (zone : Zone b) (sized : Sized b) (agree : Agree m b) :
    SameFlight m b := by
  intro r hr i hi
  obtain ⟨hbuf, hbytes, -⟩ := sized r hr
  have hregion := zone.region
  rcases agree with all | ⟨hle, below⟩
  · exact all _ (by omega)
  · exact below _ (by omega)

theorem sameFlight_of_none (free : b.request = none) : SameFlight m b := fun r hr => by
  rw [free] at hr
  cases hr

/-! ## One call -/

theorem tick_over (flight : SameFlight m b) (d : Bool) : (b.atop m d).tick = b.tick.atop m d := by
  unfold tick atop
  dsimp only
  cases hr : b.request with
  | none => rfl
  | some r =>
    have hfile : r.transfer (b.sched.moves b.clock) m b.file =
        r.transfer (b.sched.moves b.clock) b.mem b.file := by
      funext k
      unfold Request.transfer
      split_ifs with h
      · exact flight r hr _ (by omega)
      · rfl
    dsimp only
    rw [hfile]

theorem aioError_over (flight : SameFlight m b) (d : Bool) :
    (b.atop m d).aioError = (b.aioError.1, b.aioError.2.atop m d) := by
  unfold aioError
  have hrequest : (b.atop m d).request = b.request := rfl
  rw [hrequest]
  cases hr : b.request with
  | none => rfl
  | some r =>
    dsimp only
    by_cases hp : r.polls ≠ 0
    · have flight' : SameFlight m { b with request := some { r with polls := r.polls - 1 } } := by
        intro r' hr'
        obtain rfl := Option.some.inj hr'
        exact flight r hr
      rw [if_pos hp, if_pos hp, ← tick_over flight' d]
      rfl
    · rw [if_neg hp, if_neg hp]
      have hfile : r.transfer (fun i => decide (i < r.count)) m b.file =
          r.transfer (fun i => decide (i < r.count)) b.mem b.file := by
        funext k
        unfold Request.transfer
        split_ifs with h
        · exact flight r hr _ (by omega)
        · rfl
      cases ho : r.outcome with
      | failed e => rfl
      | _ =>
        dsimp only [atop]
        rw [hfile]

theorem aioSuspend_over (flight : SameFlight m b) (d : Bool) :
    (b.atop m d).aioSuspend = (b.aioSuspend.1, b.aioSuspend.2.atop m d) := by
  have flight' : SameFlight m { b with request := b.request.map Request.ready } := by
    intro r' hr'
    obtain ⟨r, hr, rfl⟩ := Option.map_eq_some_iff.1 hr'
    exact flight r hr
  unfold aioSuspend
  rw [← tick_over flight' d]
  rfl

theorem aioReturn_over (b : Aiobuf) (d : Bool) :
    (b.atop m d).aioReturn = (b.aioReturn.1, b.aioReturn.2.atop m d) := by
  unfold aioReturn
  have hrequest : (b.atop m d).request = b.request := rfl
  rw [hrequest]
  cases b.request with
  | none => rfl
  | some r =>
    dsimp only
    cases r.outcome <;> rfl

theorem aioWrite_over (again : ℕ) (free : b.request = none) (d : Bool) :
    (b.atop m d).aioWrite again = ((b.aioWrite again).1, (b.aioWrite again).2.atop m d) := by
  induction again generalizing b with
  | zero =>
    simp only [aioWrite]
    have hfate : (b.atop m d).sched.fate (b.atop m d).batch = b.sched.fate b.batch := rfl
    rw [hfate]
    cases (b.sched.fate b.batch).refused with
    | some e => rfl
    | none =>
      dsimp only
      have hsize : (b.atop m d).size + (b.atop m d).enqueued = b.size + b.enqueued := rfl
      rw [hsize]
      split_ifs <;> rfl
  | succ again ih =>
    have hfree : b.tick.request = none := by
      unfold tick
      rw [free]
    rw [aioWrite, tick_over (sameFlight_of_none free), ih hfree]
    rfl

theorem queueAsIs_over (free : b.request = none) (d : Bool) :
    ∃ d', (b.atop m d).queueAsIs = (b.queueAsIs.1, b.queueAsIs.2.atop m d') := by
  unfold queueAsIs
  dsimp only
  have hover : (b.atop m d).dbgAssert (decide ((b.atop m d).tail ≠ BUFSIZE)) =
      (b.dbgAssert (decide (b.tail ≠ BUFSIZE))).atop m (d && decide (b.tail ≠ BUFSIZE)) := rfl
  have hfree : (b.dbgAssert (decide (b.tail ≠ BUFSIZE))).request = none := free
  rw [hover]
  generalize b.dbgAssert (decide (b.tail ≠ BUFSIZE)) = b₁ at hfree
  have henq : (b₁.atop m (d && decide (b.tail ≠ BUFSIZE))).enqueued = b₁.enqueued := rfl
  have hagain : ((b₁.atop m (d && decide (b.tail ≠ BUFSIZE))).sched.fate
      (b₁.atop m (d && decide (b.tail ≠ BUFSIZE))).batch).again =
        (b₁.sched.fate b₁.batch).again := rfl
  rw [henq, hagain, aioWrite_over _ hfree]
  split_ifs
  · exact ⟨_, rfl⟩
  · rcases b₁.aioWrite (b₁.sched.fate b₁.batch).again with ⟨_ | e, b₂⟩
    · exact ⟨_, rfl⟩
    · exact ⟨_, rfl⟩

theorem prepareNext_over (free : b.request = none) (d : Bool) :
    ∃ d', (b.atop m d).prepareNext = (b.prepareNext.1, b.prepareNext.2.atop m d') := by
  obtain ⟨b₁, d₁, hb, hover, hfree⟩ : ∃ (b₁ : Aiobuf) (d₁ : Bool), b.prepareNext = b₁.queueAsIs ∧
      (b.atop m d).prepareNext = (b₁.atop m d₁).queueAsIs ∧ b₁.request = none :=
    ⟨_, d && _ && _ && _, rfl, rfl, free⟩
  rw [hb, hover]
  exact queueAsIs_over hfree d₁

theorem checkCompletion_over (rc : Status) (d : Bool) :
    ∃ d', (b.atop m d).checkCompletion rc =
      ((b.checkCompletion rc).1, (b.checkCompletion rc).2.atop m d') := by
  cases rc with
  | inProgress => exact ⟨_, rfl⟩
  | errno e => exact ⟨_, rfl⟩
  | zero =>
    have hfree : b.aioReturn.2.request = none := by
      unfold aioReturn
      cases b.request with
      | none => rfl
      | some r =>
        dsimp only
        cases r.outcome <;> rfl
    unfold checkCompletion
    dsimp only
    rw [aioReturn_over]
    rcases hret : b.aioReturn with ⟨e | wrc, b₁⟩
    · rw [hret] at hfree
      dsimp only at hfree ⊢
      cases e <;> first | exact ⟨_, rfl⟩ | exact queueAsIs_over hfree d
    · rw [hret] at hfree
      dsimp only at hfree ⊢
      have henq : (b₁.atop m d).enqueued = b₁.enqueued := rfl
      rw [henq]
      split_ifs
      · exact ⟨_, rfl⟩
      · exact prepareNext_over hfree d

theorem sameFlight_tick (flight : SameFlight m b) : SameFlight m b.tick := by
  intro r hr
  rw [tick_mem]
  unfold tick at hr
  split at hr
  next hnone =>
    rw [hnone] at hr
    cases hr
  next r' hr' =>
    obtain rfl := Option.some.inj hr
    exact flight r' hr'

theorem sameFlight_aioError (flight : SameFlight m b) : SameFlight m b.aioError.2 := by
  unfold aioError
  cases hr : b.request with
  | none => exact sameFlight_of_none rfl
  | some r =>
    have same : ∀ (r' : Request) (b' : Aiobuf), b'.request = some r' → b'.mem = b.mem →
        r'.buf = r.buf → r'.nbytes = r.nbytes → SameFlight m b' := by
      intro r' b' hr' hmem hbuf hbytes r'' hr'' i hi
      obtain rfl := Option.some.inj (hr'.symm.trans hr'')
      rw [hbytes] at hi
      rw [hbuf, hmem]
      exact flight r hr i hi
    dsimp only
    split_ifs
    · exact sameFlight_tick (same _ _ rfl rfl rfl rfl)
    · cases r.outcome <;> exact same _ _ rfl rfl rfl rfl

theorem sameFlight_aioSuspend (flight : SameFlight m b) : SameFlight m b.aioSuspend.2 := by
  refine sameFlight_tick fun r hr => ?_
  obtain ⟨r', hr', rfl⟩ := Option.map_eq_some_iff.1 hr
  exact flight r' hr'

theorem complete_over (flight : SameFlight m b) (d : Bool) :
    ∃ d', (b.atop m d).complete = (b.complete.1, b.complete.2.atop m d') := by
  unfold complete
  rw [aioError_over flight]
  exact checkCompletion_over _ d

theorem queueAiobuf_over (free : b.enqueued = 0 → b.request = none) (flight : SameFlight m b)
    (force : Bool) (d : Bool) :
    ∃ d', (b.atop m d).queueAiobuf force =
      ((b.queueAiobuf force).1, (b.queueAiobuf force).2.atop m d') := by
  have henq : (b.atop m d).enqueued = b.enqueued := rfl
  by_cases he : b.enqueued = 0
  · rw [queueAiobuf, queueAiobuf, henq, if_pos he, if_pos he]
    exact prepareNext_over (free he) d
  · have herror := aioError_over flight d
    have flight₁ := sameFlight_aioError flight
    rcases h : b.aioError with ⟨rc, b₁⟩
    rw [h] at herror flight₁
    cases rc with
    | inProgress =>
      cases force with
      | false =>
        rw [queueAiobuf, queueAiobuf, henq, if_neg he, if_neg he, herror, h]
        exact ⟨d, rfl⟩
      | true =>
        have hself : b.queueAiobuf true = b₁.aioSuspend.2.complete := by
          rw [queueAiobuf, if_neg he, h]
          rfl
        have hover : (b.atop m d).queueAiobuf true = (b₁.atop m d).aioSuspend.2.complete := by
          rw [queueAiobuf, henq, if_neg he, herror]
          rfl
        rw [hself, hover, aioSuspend_over flight₁]
        exact complete_over (sameFlight_aioSuspend flight₁) d
    | _ =>
      rw [queueAiobuf, queueAiobuf, henq, if_neg he, if_neg he, herror, h]
      exact checkCompletion_over _ d

/-! ## Twins -/

theorem agree_of_still {b' : Aiobuf} (still : Still b b') (agree : Agree m b) : Agree m b' := by
  unfold Agree
  rw [still.tail, still.cur, still.enqueued, still.mem]
  exact agree

/-- The next batch ends at the cursor, or the cursor has been around. -/
theorem agree_prepareNext (zone : Zone b) (agree : Agree m b) : Agree m b.prepareNext.2 := by
  obtain ⟨b₁, hb, htail, hcur, henq, hmem⟩ : ∃ b₁ : Aiobuf, b.prepareNext = b₁.queueAsIs ∧
      b₁.tail = b.releasedTail ∧ b₁.cur = b.cur ∧
      b₁.enqueued = b.nextBatch b.releasedTail ∧ b₁.mem = b.mem :=
    ⟨_, rfl, rfl, rfl, rfl, rfl⟩
  rw [hb]
  refine agree_of_still (queueAsIs_still b₁).1 ?_
  unfold Agree
  rw [htail, hcur, henq, hmem]
  rcases agree with all | ⟨hle, below⟩
  · exact Or.inl all
  · have hcur := zone.cur_lt
    refine Or.inr ⟨?_, below⟩
    unfold releasedTail nextBatch
    split_ifs <;> omega

theorem twins_queueAiobuf {b' : Aiobuf} (twins : Twins b b') (force : Bool) :
    (b'.queueAiobuf force).1 = (b.queueAiobuf force).1 ∧
      Twins (b.queueAiobuf force).2 (b'.queueAiobuf force).2 := by
  obtain ⟨zone, sized, opened, m, d, rfl, agree⟩ := twins
  have free : b.enqueued = 0 → b.request = none := by
    intro he
    cases hr : b.request with
    | none => rfl
    | some r => exact absurd he (sized r hr).2.2
  obtain ⟨d', hover⟩ := queueAiobuf_over free (sameFlight_of_agree zone sized agree) force d
  rw [hover]
  have honest := queueAiobuf_honest sized force
  refine ⟨rfl, zone_queueAiobuf zone force, honest.sized, honest.opened.trans opened, m, d', rfl,
    ?_⟩
  rcases queueAiobuf_cases force b with ⟨-, -, still⟩ | ⟨-, still⟩ | ⟨b₁, still, heq⟩
  · exact agree_of_still still agree
  · exact agree_of_still still agree
  · rw [heq]
    exact agree_prepareNext (zone_of_still still zone) (agree_of_still still agree)

theorem twins_dbgAssert {b' : Aiobuf} (twins : Twins b b') (c c' : Bool) :
    Twins (b.dbgAssert c) (b'.dbgAssert c') := by
  obtain ⟨zone, sized, opened, m, d, rfl, agree⟩ := twins
  exact ⟨⟨zone.tail_lt, zone.region, zone.cur_lt⟩, sized, opened, m, d && c', rfl, agree⟩

/-- Everything but memory is the same in both. -/
theorem twins_fields {b' : Aiobuf} (twins : Twins b b') : b'.pending = b.pending ∧
    b'.position = b.position ∧ b'.closedFile = b.closedFile ∧ b'.lost = b.lost := by
  obtain ⟨-, -, -, m, d, rfl, -⟩ := twins
  exact ⟨rfl, rfl, rfl, rfl⟩

theorem twins_forceWrite {fuel : ℕ} {b b' b₁ : Aiobuf} {jobrc rc : QueueRc} (twins : Twins b b')
    (hrun : b.forceWrite fuel jobrc = some (rc, b₁)) :
    ∃ b₁', b'.forceWrite fuel jobrc = some (rc, b₁') ∧ Twins b₁ b₁' := by
  induction fuel generalizing b b' jobrc with
  | zero => cases hrun
  | succ fuel ih =>
    rw [forceWrite] at hrun ⊢
    rw [(twins_fields twins).1]
    split_ifs at hrun ⊢
    · obtain ⟨hrc, htwins⟩ := twins_queueAiobuf twins true
      change (b.queueAiobuf true).2.forceWrite fuel (b.queueAiobuf true).1 = _ at hrun
      rw [← hrc] at hrun
      exact ih htwins hrun
    · obtain ⟨rfl, rfl⟩ := Prod.mk.inj (Option.some.inj hrun)
      exact ⟨b', rfl, twins⟩

theorem twins_flushAiobuf {fuel : ℕ} {b b' b₁ : Aiobuf} (twins : Twins b b')
    (hrun : b.flushAiobuf fuel = some b₁) :
    ∃ b₁', b'.flushAiobuf fuel = some b₁' ∧ Twins b₁ b₁' := by
  induction fuel generalizing b b' with
  | zero => cases hrun
  | succ fuel ih =>
    obtain ⟨hrc, htwins⟩ := twins_queueAiobuf twins true
    rw [flushAiobuf] at hrun ⊢
    rcases hq : b.queueAiobuf true with ⟨rc, b₂⟩
    rcases hq' : b'.queueAiobuf true with ⟨rc', b₂'⟩
    rw [hq, hq'] at hrc htwins
    obtain rfl : rc' = rc := hrc
    rw [hq] at hrun
    cases rc' with
    | inProgress => exact ih htwins hrun
    | _ =>
      obtain rfl := Option.some.inj hrun
      exact ⟨b₂', rfl, htwins⟩

/-! ## Copying -/

/-- Bytes that are copied are the same in both memories from then on. -/
theorem memcpy_over (xs : List UInt8) (dst : ℕ) (flight : SameFlight m b) (d : Bool) :
    ∃ m', (b.atop m d).memcpy xs dst = (b.memcpy xs dst).atop m' d ∧
      ∀ i, m i = b.mem i ∨ (dst ≤ i ∧ i < dst + xs.length) →
        m' i = (b.memcpy xs dst).mem i := by
  induction xs generalizing dst b m with
  | nil =>
    refine ⟨m, rfl, fun i hi => ?_⟩
    rcases hi with same | ⟨hge, hlt⟩
    · exact same
    · exact absurd hlt (Nat.not_lt.2 hge)
  | cons x xs ih =>
    have hupdate : ∀ i, m i = b.mem i ∨ i = dst →
        Function.update m dst x i = Function.update b.mem dst x i := by
      intro i hi
      by_cases heq : i = dst
      · rw [heq, Function.update_self, Function.update_self]
      · rw [Function.update_of_ne heq, Function.update_of_ne heq]
        exact hi.resolve_right heq
    have flight₁ : SameFlight (Function.update m dst x)
        { b with mem := Function.update b.mem dst x } :=
      fun r hr i hi => hupdate _ (Or.inl (flight r hr i hi))
    obtain ⟨m', hm', hsame⟩ := ih (dst + 1) (sameFlight_tick flight₁)
    rw [memcpy, memcpy]
    refine ⟨m', ?_, fun i hi => hsame i ?_⟩
    · rw [← hm', ← tick_over flight₁ d]
      rfl
    · rw [tick_mem]
      rw [List.length_cons] at hi
      by_cases hge : dst + 1 ≤ i
      · rcases hi with same | ⟨-, hlt⟩
        · exact Or.inl (hupdate i (Or.inl same))
        · exact Or.inr ⟨hge, by omega⟩
      · refine Or.inl (hupdate i ?_)
        rcases hi with same | ⟨hdst, -⟩
        · exact Or.inl same
        · exact Or.inr (by omega)

/-- Copying goes on from the cursor, and reaches every byte before it comes around. -/
theorem copyIn_over (zone : Zone b) (sized : Sized b) (agree : Agree m b) (buf : List UInt8)
    (d : Bool) : ∃ m', (b.atop m d).copyIn buf = (b.copyIn buf).atop m' d ∧
      Agree m' (b.copyIn buf) := by
  have flight := sameFlight_of_agree zone sized agree
  have hcur : (b.atop m d).cur = b.cur := rfl
  have hlt := zone.cur_lt
  unfold copyIn
  dsimp only
  rw [hcur]
  by_cases hspace : buf.length < BUFSIZE - b.cur
  · obtain ⟨m', hover, hsame⟩ := memcpy_over buf b.cur flight d
    obtain ⟨mem, f, r, c, hframe⟩ := memcpy_frame buf b.cur b
    rw [if_pos hspace, if_pos hspace, hover]
    refine ⟨m', rfl, ?_⟩
    rcases agree with all | ⟨hle, below⟩
    · exact Or.inl fun i hi => hsame i (Or.inl (all i hi))
    · refine Or.inr ⟨?_, fun i hi => hsame i ?_⟩
      · rw [hframe]
        dsimp only
        omega
      · dsimp only at hi
        by_cases hbelow : i < b.cur
        · exact Or.inl (below i hbelow)
        · exact Or.inr ⟨by omega, by omega⟩
  · obtain ⟨m₁, hover₁, hsame₁⟩ := memcpy_over (buf.take (BUFSIZE - b.cur)) b.cur flight d
    obtain ⟨mem, f, r, c, hframe⟩ := memcpy_frame (buf.take (BUFSIZE - b.cur)) b.cur b
    have hlen : (buf.take (BUFSIZE - b.cur)).length = BUFSIZE - b.cur := by
      rw [List.length_take]
      omega
    have all₁ : ∀ i < BUFSIZE, m₁ i = (b.memcpy (buf.take (BUFSIZE - b.cur)) b.cur).mem i := by
      intro i hi
      refine hsame₁ i ?_
      rcases agree with all | ⟨hle, below⟩
      · exact Or.inl (all i hi)
      · by_cases hbelow : i < b.cur
        · exact Or.inl (below i hbelow)
        · exact Or.inr ⟨by omega, by omega⟩
    have flight₁ : SameFlight m₁ (b.memcpy (buf.take (BUFSIZE - b.cur)) b.cur) := by
      have zone₁ : Zone (b.memcpy (buf.take (BUFSIZE - b.cur)) b.cur) := by
        rw [hframe]
        exact ⟨zone.tail_lt, zone.region, zone.cur_lt⟩
      exact sameFlight_of_agree zone₁ (sized_memcpy _ _ sized) (Or.inl all₁)
    obtain ⟨m₂, hover₂, hsame₂⟩ := memcpy_over (buf.drop (BUFSIZE - b.cur)) 0 flight₁ d
    rw [if_neg hspace, if_neg hspace, hover₁, hover₂]
    exact ⟨m₂, rfl, Or.inl fun i hi => hsame₂ i (Or.inl (all₁ i hi))⟩

theorem twins_copyIn {b b' : Aiobuf} (twins : Twins b b') {buf : List UInt8}
    (hlen : buf.length ≤ BUFSIZE) : Twins (b.copyIn buf) (b'.copyIn buf) := by
  obtain ⟨zone, sized, opened, m, d, rfl, agree⟩ := twins
  obtain ⟨m', hover, agree'⟩ := copyIn_over zone sized agree buf d
  have honest := copyIn_honest sized buf
  exact ⟨zone_copyIn zone hlen, honest.sized, honest.opened.trans opened, m', d, hover, agree'⟩

/-- `s_try_queue_aiobuf` for both. -/
theorem twins_tryQueueAiobuf {fuel : ℕ} {buf : List UInt8} {b b' b₁ : Aiobuf} {rc : QueueRc}
    (twins : Twins b b') (hlen : buf.length ≤ BUFSIZE)
    (hrun : b.tryQueueAiobuf fuel buf = some (rc, b₁)) :
    ∃ b₁', b'.tryQueueAiobuf fuel buf = some (rc, b₁') ∧ Twins b₁ b₁' := by
  have hcopy := twins_copyIn (twins_dbgAssert twins (b.entryAsserts buf.length)
    (b'.entryAsserts buf.length)) hlen
  have hcur : b'.cur = b.cur := by
    obtain ⟨-, -, -, m, d, rfl, -⟩ := twins
    rfl
  rw [tryQueueAiobuf] at hrun ⊢
  dsimp only at hrun ⊢
  rw [dbgAssert_cur] at hrun ⊢
  rw [hcur]
  generalize copyIn buf (b.dbgAssert (b.entryAsserts buf.length)) = b₂ at hcopy hrun
  generalize copyIn buf (b'.dbgAssert (b'.entryAsserts buf.length)) = b₂' at hcopy
  have hwaiting : b₂'.waiting = b₂.waiting := by
    obtain ⟨-, -, -, m, d, rfl, -⟩ := hcopy
    rfl
  rw [hwaiting, (twins_fields hcopy).1]
  split_ifs at hrun ⊢
  · obtain ⟨rfl, rfl⟩ := Prod.mk.inj (Option.some.inj hrun)
    exact ⟨b₂', rfl, hcopy⟩
  · obtain ⟨hrc, hqueued⟩ := twins_queueAiobuf hcopy false
    obtain ⟨⟨rc', b₃⟩, hforce, heq⟩ := Option.map_eq_some_iff.1 hrun
    obtain ⟨rfl, rfl⟩ := Prod.mk.inj heq
    rw [← hrc] at hforce
    obtain ⟨b₃', hforce', htwins⟩ := twins_forceWrite hqueued hforce
    rw [hforce']
    exact ⟨_, rfl, twins_dbgAssert htwins _ _⟩

end Aiobuf

end Tesd
