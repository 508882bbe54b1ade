import Tesd.AiobufTermination
import Tesd.Lib.Circular

/-!
# The write buffer refines an append-only file

The bytes appended to a buffer are at every moment those in the first `size` bytes of its file
followed by those in the window of `enqueued + waiting` bytes from the tail on, which may wrap
around (`content`).  `Inv` is the invariant behind this; it survives every call and every schedule
of the kernel.  Queueing a batch leaves the content alone (`queueAiobuf_spec`), appending adds to
its end (`tryQueueAiobuf_spec`), and a flush without a failed write brings all of it to the file
(`flushAiobuf_spec`).
-/

namespace Tesd

open Slice

/-- The request was reported as failed, and will be again. -/
def Request.Dead (r : Request) : Prop := r.polls = 0 ∧ ∃ e, r.outcome = .failed e

namespace Aiobuf

/-! ## The content and the invariant -/

/-- The bytes appended so far: those written, then those in the buffer zone from the tail on. -/
def content (b : Aiobuf) : List UInt8 :=
  slice b.file 0 b.size ++ slice (fun i => b.mem (i % BUFSIZE)) b.tail (b.enqueued + b.waiting)

theorem length_content (b : Aiobuf) :
    b.content.length = b.size + b.enqueued + b.waiting := by
  simp [content, Nat.add_assoc]

/-- A request in flight is for the bytes queued last, and what it has moved is in the file. -/
structure Flight (b : Aiobuf) (r : Request) : Prop where
  enqueued_ne : b.enqueued ≠ 0
  offset : r.offset = b.size
  buf : r.buf = b.tail
  nbytes : r.nbytes = b.enqueued
  le_max : b.size + b.enqueued ≤ OFF_MAX
  moved : ∀ i, i < r.nbytes → r.moved i = true → b.file (r.offset + i) = b.mem (r.buf + i)

/-- Where the queued and the waiting bytes lie in the buffer zone. -/
structure Layout (b : Aiobuf) : Prop where
  tail_lt : b.tail < BUFSIZE
  region : b.tail + b.enqueued ≤ BUFSIZE
  cur_eq : b.cur = (b.tail + b.enqueued + b.waiting) % BUFSIZE
  room : b.enqueued + b.waiting ≤ BUFSIZE
  waiting_lt : b.waiting < BUFSIZE
  size_le : b.size ≤ OFF_MAX

/-- The invariant of a buffer whose file is open. -/
structure Inv (b : Aiobuf) : Prop extends Layout b where
  flight : ∀ r, b.request = some r → Flight b r
  alive : b.lost = false → b.enqueued ≠ 0 → ∃ r, b.request = some r
  dead : b.lost = true → b.enqueued ≠ 0 ∧ ∀ r, b.request = some r → r.Dead

/-! ## The kernel's steps -/

theorem transfer_of_lt (r : Request) (sel : ℕ → Bool) (mem file : ℕ → UInt8) {k : ℕ}
    (h : k < r.offset) : r.transfer sel mem file k = file k :=
  if_neg fun hc => by omega

/-- A byte that a transfer picks, or that was moved before it, agrees with memory afterwards. -/
theorem transfer_agrees (r : Request) (sel : ℕ → Bool) (mem file : ℕ → UInt8) {i : ℕ}
    (hi : i < r.nbytes) (old : r.moved i = true → file (r.offset + i) = mem (r.buf + i))
    (h : r.moved i = true ∨ sel i = true) :
    r.transfer sel mem file (r.offset + i) = mem (r.buf + i) := by
  unfold Request.transfer
  rw [Nat.add_sub_cancel_left]
  cases hm : r.moved i with
  | true => rw [if_neg (by simp)]; exact old hm
  | false =>
    rw [hm] at h
    rw [if_pos ⟨Nat.le_add_right _ _, by omega, by simpa using h, rfl⟩]

theorem tick_of_none {b : Aiobuf} (h : b.request = none) :
    b.tick = { b with clock := b.clock + 1 } := by
  unfold tick
  rw [h]

theorem tick_request {b : Aiobuf} {r : Request} (h : b.request = some r) :
    ∃ m, b.tick.request = some { r with moved := m } := by
  unfold tick
  rw [h]
  exact ⟨_, rfl⟩

theorem tick_request_eq_none {b : Aiobuf} : b.tick.request = none ↔ b.request = none := by
  unfold tick
  split <;> simp_all

/-- The kernel writes only past the bytes that count as written. -/
theorem tick_file_of_lt {b : Aiobuf} (flight : ∀ r, b.request = some r → Flight b r) {k : ℕ}
    (h : k < b.size) : b.tick.file k = b.file k := by
  unfold tick
  split
  · rfl
  · rename_i r hr
    exact transfer_of_lt r _ _ _ (by rw [(flight r hr).offset]; exact h)

theorem tick_flight {b : Aiobuf} (flight : ∀ r, b.request = some r → Flight b r) (r : Request)
    (h : b.tick.request = some r) : Flight b.tick r := by
  unfold tick at h ⊢
  split at h
  · rename_i hr
    rw [hr] at h
    cases h
  · rename_i s hs
    obtain rfl := Option.some.inj h
    have f := flight s hs
    exact ⟨f.enqueued_ne, f.offset, f.buf, f.nbytes, f.le_max,
      fun i hi hm => transfer_agrees s _ _ _ hi (f.moved i hi) (by simpa using hm)⟩

theorem tick_inv {b : Aiobuf} (inv : Inv b) : Inv b.tick where
  tail_lt := by simpa using inv.tail_lt
  region := by simpa using inv.region
  cur_eq := by simpa using inv.cur_eq
  room := by simpa using inv.room
  waiting_lt := by simpa using inv.waiting_lt
  size_le := by simpa using inv.size_le
  flight := tick_flight inv.flight
  alive := by
    intro hl he
    rw [tick_lost] at hl
    rw [tick_enqueued] at he
    obtain ⟨r, hr⟩ := inv.alive hl he
    obtain ⟨m, hm⟩ := tick_request hr
    exact ⟨_, hm⟩
  dead := by
    intro hl
    rw [tick_lost] at hl
    rw [tick_enqueued]
    refine ⟨(inv.dead hl).1, fun r hr => ?_⟩
    cases hb : b.request with
    | none => rw [tick_request_eq_none.2 hb] at hr; cases hr
    | some s =>
      obtain ⟨m, hm⟩ := tick_request hb
      rw [hm] at hr
      obtain rfl := Option.some.inj hr
      exact (inv.dead hl).2 s hb

theorem tick_content {b : Aiobuf} (inv : Inv b) : b.tick.content = b.content := by
  unfold content
  rw [tick_size, tick_mem, tick_tail, tick_enqueued, tick_waiting]
  exact congrArg (· ++ _) (slice_congr fun i _ hi => tick_file_of_lt inv.flight (by omega))

/-! ## Copying into the buffer zone -/

theorem poke_inv {b : Aiobuf} (inv : Inv b) {dst : ℕ} (x : UInt8)
    (free : ∀ i, i < b.enqueued + b.waiting → (b.tail + i) % BUFSIZE ≠ dst) :
    Inv { b with mem := Function.update b.mem dst x } := by
  refine ⟨⟨inv.tail_lt, inv.region, inv.cur_eq, inv.room, inv.waiting_lt, inv.size_le⟩,
    fun r hr => ?_, inv.alive, inv.dead⟩
  have f := inv.flight r hr
  refine ⟨f.enqueued_ne, f.offset, f.buf, f.nbytes, f.le_max, fun i hi hm => ?_⟩
  -- the request reads a window that ends before the buffer zone does
  have hi' : i < b.enqueued := f.nbytes ▸ hi
  have hne := free i (by omega)
  rw [Nat.mod_eq_of_lt (by have := inv.region; omega)] at hne
  show b.file _ = Function.update b.mem dst x _
  rw [f.buf, Function.update_of_ne hne, ← f.buf]
  exact f.moved i hi hm

theorem poke_content {b : Aiobuf} {dst : ℕ} (x : UInt8)
    (free : ∀ i, i < b.enqueued + b.waiting → (b.tail + i) % BUFSIZE ≠ dst) :
    content { b with mem := Function.update b.mem dst x } = b.content := by
  unfold content
  refine congrArg (_ ++ ·) (slice_eq_of_shift fun k hk => ?_)
  exact Function.update_of_ne (free k hk) _ _

/-- Bytes copied to free places of the buffer zone leave the content alone. -/
theorem memcpy_spec (xs : List UInt8) (dst : ℕ) {b : Aiobuf} (inv : Inv b)
    (free : ∀ k, k < xs.length → ∀ i, i < b.enqueued + b.waiting →
      (b.tail + i) % BUFSIZE ≠ dst + k) :
    Inv (b.memcpy xs dst) ∧ (b.memcpy xs dst).content = b.content ∧
      (∀ k (hk : k < xs.length), (b.memcpy xs dst).mem (dst + k) = xs[k]) ∧
      ∀ a, a < dst ∨ dst + xs.length ≤ a → (b.memcpy xs dst).mem a = b.mem a := by
  induction xs generalizing dst b with
  | nil => exact ⟨inv, rfl, fun k hk => absurd hk (Nat.not_lt_zero k), fun a _ => rfl⟩
  | cons x xs ih =>
    have free₀ : ∀ i, i < b.enqueued + b.waiting → (b.tail + i) % BUFSIZE ≠ dst :=
      fun i hi => by simpa using free 0 (Nat.succ_pos _) i hi
    have inv' := tick_inv (poke_inv inv x free₀)
    have free' : ∀ k, k < xs.length → ∀ i, i < b.enqueued + b.waiting →
        (b.tail + i) % BUFSIZE ≠ dst + 1 + k := fun k hk i hi => by
      have := free (k + 1) (Nat.succ_lt_succ hk) i hi
      rwa [show dst + (k + 1) = dst + 1 + k by omega] at this
    obtain ⟨hinv, hc, hnew, hold⟩ := ih (dst + 1) inv' (by simpa using free')
    rw [tick_content (poke_inv inv x free₀), poke_content x free₀] at hc
    rw [tick_mem] at hold
    refine ⟨hinv, hc, fun k hk => ?_, fun a ha => ?_⟩
    · cases k with
      | zero =>
        refine (hold dst (Or.inl (Nat.lt_succ_self _))).trans ?_
        exact Function.update_self _ _ _
      | succ k =>
        have := hnew k (Nat.lt_of_succ_lt_succ hk)
        rwa [show dst + 1 + k = dst + (k + 1) by omega] at this
    · rw [List.length_cons] at ha
      refine (hold a (by omega)).trans ?_
      exact Function.update_of_ne (by omega) _ _

/-- The place of the `k`-th byte past the content. -/
theorem cur_add_mod {b : Aiobuf} (inv : Inv b) (k : ℕ) :
    (b.cur + k) % BUFSIZE = (b.tail + (b.enqueued + b.waiting + k)) % BUFSIZE := by
  rw [inv.cur_eq, Nat.mod_add_mod, Nat.add_assoc, Nat.add_assoc, Nat.add_assoc]

/-- Places past the content are free, as long as the content does not catch up with its start. -/
theorem free_of_le {b : Aiobuf} (inv : Inv b) {len : ℕ}
    (hroom : b.enqueued + b.waiting + len ≤ BUFSIZE) {k i : ℕ} (hk : k < len)
    (hi : i < b.enqueued + b.waiting) : (b.tail + i) % BUFSIZE ≠ (b.cur + k) % BUFSIZE := by
  rw [cur_add_mod inv]
  intro h
  have := Circular.add_mod_inj (by omega) (by omega) h
  omega

/-- What copying a buffer to the cursor does to memory, whether or not it wraps around. -/
structure Copied (buf : List UInt8) (b b' : Aiobuf) : Prop where
  inv : Inv b'
  content : b'.content = b.content
  bytes : ∀ k (hk : k < buf.length), b'.mem ((b.cur + k) % BUFSIZE) = buf[k]
  tail : b'.tail = b.tail
  waiting : b'.waiting = b.waiting
  enqueued : b'.enqueued = b.enqueued
  lost : b'.lost = b.lost

theorem copied_of_lt {b : Aiobuf} (inv : Inv b) (buf : List UInt8)
    (hroom : b.enqueued + b.waiting + buf.length ≤ BUFSIZE)
    (hspace : b.cur + buf.length ≤ BUFSIZE) : Copied buf b (b.memcpy buf b.cur) := by
  have place : ∀ k, k < buf.length → (b.cur + k) % BUFSIZE = b.cur + k :=
    fun k hk => Nat.mod_eq_of_lt (by omega)
  obtain ⟨hinv, hc, hnew, -⟩ := memcpy_spec buf b.cur inv fun k hk i hi => by
    rw [← place k hk]
    exact free_of_le inv hroom hk hi
  obtain ⟨m, f, r, c, h⟩ := memcpy_frame buf b.cur b
  refine ⟨hinv, hc, fun k hk => ?_, ?_, ?_, ?_, ?_⟩
  · rw [place k hk]
    exact hnew k hk
  all_goals rw [h]

theorem copied_of_wrap {b : Aiobuf} (inv : Inv b) (buf : List UInt8)
    (hroom : b.enqueued + b.waiting + buf.length ≤ BUFSIZE)
    (hspace : BUFSIZE ≤ b.cur + buf.length) :
    Copied buf b ((b.memcpy (buf.take (BUFSIZE - b.cur)) b.cur).memcpy
      (buf.drop (BUFSIZE - b.cur)) 0) := by
  have hcur : b.cur < BUFSIZE := by rw [inv.cur_eq]; exact Nat.mod_lt _ (by decide)
  have hl : (buf.take (BUFSIZE - b.cur)).length = BUFSIZE - b.cur := by
    rw [List.length_take]; omega
  have first := copied_of_lt inv (buf.take (BUFSIZE - b.cur)) (by omega) (by omega)
  -- the rest of the buffer goes to the places from the base of the buffer zone on
  have place : ∀ k, (b.cur + (BUFSIZE - b.cur + k)) % BUFSIZE = k % BUFSIZE := fun k => by
    rw [show b.cur + (BUFSIZE - b.cur + k) = k + BUFSIZE by omega, Nat.add_mod_right]
  have small : ∀ k, k < (buf.drop (BUFSIZE - b.cur)).length → k % BUFSIZE = k := fun k hk => by
    rw [List.length_drop] at hk
    exact Nat.mod_eq_of_lt (by omega)
  obtain ⟨hinv, hc, hnew, hold⟩ := memcpy_spec (buf.drop (BUFSIZE - b.cur)) 0
    first.inv fun k hk i hi => by
      rw [first.tail, Nat.zero_add, ← small k hk, ← place k]
      rw [first.enqueued, first.waiting] at hi
      rw [List.length_drop] at hk
      exact free_of_le inv hroom (by omega) hi
  obtain ⟨m, f, r, c, h⟩ := memcpy_frame (buf.drop (BUFSIZE - b.cur)) 0
    (b.memcpy (buf.take (BUFSIZE - b.cur)) b.cur)
  refine ⟨hinv, hc.trans first.content, fun k hk => ?_, ?_, ?_, ?_, ?_⟩
  · rcases Nat.lt_or_ge k (BUFSIZE - b.cur) with hlt | hge
    · rw [hold _ (Or.inr ?_), first.bytes k (by omega), List.getElem_take]
      rw [Nat.mod_eq_of_lt (by omega), List.length_drop]
      have := inv.room
      omega
    · obtain ⟨j, rfl⟩ := Nat.exists_eq_add_of_le hge
      have hj : j < (buf.drop (BUFSIZE - b.cur)).length := by rw [List.length_drop]; omega
      have := hnew j hj
      rw [Nat.zero_add, List.getElem_drop] at this
      rw [place, small j hj, this]
  · rw [h]; exact first.tail
  · rw [h]; exact first.waiting
  · rw [h]; exact first.enqueued
  · rw [h]; exact first.lost

/-- The buffer zone once copied bytes count as waiting. -/
def advance (cur waiting : ℕ) (b : Aiobuf) : Aiobuf := { b with cur := cur, waiting := waiting }

/-- Counting copied bytes as waiting extends the content. -/
theorem advance_of_copied {buf : List UInt8} {b b' : Aiobuf} (h : Copied buf b b') (inv : Inv b)
    (hroom : b.enqueued + b.waiting + buf.length ≤ BUFSIZE)
    (hwait : b.waiting + buf.length < BUFSIZE) (cur : ℕ)
    (hcur : cur = (b.cur + buf.length) % BUFSIZE) :
    Inv (b'.advance cur (b.waiting + buf.length)) ∧
      (b'.advance cur (b.waiting + buf.length)).content = b.content ++ buf := by
  have he := h.enqueued
  have ht := h.tail
  constructor
  · refine ⟨⟨h.inv.tail_lt, h.inv.region, ?_, ?_, hwait, h.inv.size_le⟩, fun r hr => ?_,
      h.inv.alive, h.inv.dead⟩
    · show cur = (b'.tail + b'.enqueued + (b.waiting + buf.length)) % BUFSIZE
      rw [hcur, cur_add_mod inv, he, ht]
      congr 1
      omega
    · show b'.enqueued + (b.waiting + buf.length) ≤ BUFSIZE
      omega
    · have f := h.inv.flight r hr
      exact ⟨f.enqueued_ne, f.offset, f.buf, f.nbytes, f.le_max, f.moved⟩
  · rw [← h.content]
    unfold content
    show slice b'.file 0 b'.size ++
      slice (fun i => b'.mem (i % BUFSIZE)) b'.tail (b'.enqueued + (b.waiting + buf.length)) = _
    rw [← Nat.add_assoc, slice_append, h.waiting, List.append_assoc]
    refine congrArg _ (congrArg _ (slice_eq_of_getElem fun k hk => ?_))
    rw [← h.bytes k hk, cur_add_mod inv, he, ht, Nat.add_assoc]

theorem copyIn_spec {b : Aiobuf} (inv : Inv b) (buf : List UInt8)
    (hroom : b.enqueued + b.waiting + buf.length ≤ BUFSIZE)
    (hwait : b.waiting + buf.length < BUFSIZE) :
    Inv (b.copyIn buf) ∧ (b.copyIn buf).content = b.content ++ buf ∧
      (b.copyIn buf).enqueued = b.enqueued ∧ (b.copyIn buf).waiting = b.waiting + buf.length ∧
      (b.copyIn buf).lost = b.lost := by
  have hlt : b.cur < BUFSIZE := by rw [inv.cur_eq]; exact Nat.mod_lt _ (by decide)
  have small : (b.waiting + buf.length) % SIZE_MOD = b.waiting + buf.length :=
    Nat.mod_eq_of_lt (hwait.trans (by decide))
  unfold copyIn
  dsimp only
  by_cases hs : buf.length < BUFSIZE - b.cur
  · have h := copied_of_lt inv buf hroom (by omega)
    have hx := advance_of_copied h inv hroom hwait (b.cur + buf.length)
      (Nat.mod_eq_of_lt (by omega)).symm
    simp only [if_pos hs, h.waiting, small]
    exact ⟨hx.1, hx.2, h.enqueued, trivial, h.lost⟩
  · have h := copied_of_wrap inv buf hroom (by omega)
    have hx := advance_of_copied h inv hroom hwait (buf.length - (BUFSIZE - b.cur)) (by
      rw [Circular.add_mod_of_le hlt (by omega) (by omega)]
      omega)
    simp only [if_neg hs, h.waiting, small]
    exact ⟨hx.1, hx.2, h.enqueued, trivial, h.lost⟩

/-! ## Queueing the next batch -/

theorem releasedTail_eq {b : Aiobuf} (lay : Layout b) :
    b.releasedTail = (b.tail + b.enqueued) % BUFSIZE := by
  have := lay.region
  unfold releasedTail
  split_ifs with h
  · rw [h, Nat.mod_self]
  · rw [Nat.mod_eq_of_lt (by omega)]

theorem releasedTail_lt {b : Aiobuf} (lay : Layout b) : b.releasedTail < BUFSIZE := by
  rw [releasedTail_eq lay]
  exact Nat.mod_lt _ (by decide)

theorem cur_eq_releasedTail {b : Aiobuf} (lay : Layout b) :
    b.cur = (b.releasedTail + b.waiting) % BUFSIZE := by
  rw [releasedTail_eq lay, lay.cur_eq, Nat.mod_add_mod]

/-- The cursor is behind the tail just if the waiting bytes wrap around. -/
theorem cur_lt_releasedTail {b : Aiobuf} (lay : Layout b) :
    b.cur < b.releasedTail ↔ BUFSIZE ≤ b.releasedTail + b.waiting := by
  have ht := releasedTail_lt lay
  have hw := lay.waiting_lt
  rw [cur_eq_releasedTail lay]
  rcases Nat.lt_or_ge (b.releasedTail + b.waiting) BUFSIZE with h | h
  · rw [Nat.mod_eq_of_lt h]
    omega
  · rw [Circular.add_mod_of_le ht (by omega) h]
    omega

/-- The next batch is everything that waits, up to the end of the buffer zone. -/
theorem nextBatch_eq {b : Aiobuf} (lay : Layout b) :
    b.nextBatch b.releasedTail = min b.waiting (BUFSIZE - b.releasedTail) := by
  unfold nextBatch
  have hc := cur_lt_releasedTail lay
  split_ifs with h
  · have := hc.1 h
    omega
  · have hlt : b.releasedTail + b.waiting < BUFSIZE := by
      rcases Nat.lt_or_ge (b.releasedTail + b.waiting) BUFSIZE with h' | h'
      · exact h'
      · exact absurd (hc.2 h') h
    rw [cur_eq_releasedTail lay, Nat.mod_eq_of_lt hlt]
    omega

/-- No request is in flight, nothing has failed, and the batch queued last is in the file. -/
structure Settled (b : Aiobuf) : Prop extends Layout b where
  le_max : b.size + b.enqueued ≤ OFF_MAX
  request : b.request = none
  lost : b.lost = false
  written : ∀ i, i < b.enqueued → b.file (b.size + i) = b.mem (b.tail + i)

/-- The written bytes released, and the next batch taken from those waiting. -/
def prepared (b : Aiobuf) : Aiobuf :=
  { b with
    size := b.size + b.enqueued
    tail := b.releasedTail
    enqueued := min b.waiting (BUFSIZE - b.releasedTail)
    waiting := b.waiting - min b.waiting (BUFSIZE - b.releasedTail) }

theorem prepareNext_eq {b : Aiobuf} (lay : Layout b) :
    ∃ d, b.prepareNext = queueAsIs { b.prepared with dbg := d } := by
  have hw : b.waiting < BUFSIZE := lay.waiting_lt
  have hm : (b.waiting + SIZE_MOD - min b.waiting (BUFSIZE - b.releasedTail)) % SIZE_MOD =
      b.waiting - min b.waiting (BUFSIZE - b.releasedTail) := by
    rw [show b.waiting + SIZE_MOD - min b.waiting (BUFSIZE - b.releasedTail) =
      b.waiting - min b.waiting (BUFSIZE - b.releasedTail) + SIZE_MOD by omega, Nat.add_mod_right]
    have : BUFSIZE ≤ SIZE_MOD := by decide
    exact Nat.mod_eq_of_lt (by omega)
  have hn := nextBatch_eq lay
  unfold nextBatch at hn
  unfold prepareNext prepared dbgAssert nextBatch
  dsimp only
  simp only [hn, hm]
  exact ⟨_, rfl⟩

theorem prepared_layout {b : Aiobuf} (h : Settled b) : Layout b.prepared := by
  have ht := releasedTail_lt h.toLayout
  have hw := h.waiting_lt
  refine ⟨ht, ?_, ?_, ?_, ?_, h.le_max⟩
  · show b.releasedTail + min b.waiting (BUFSIZE - b.releasedTail) ≤ BUFSIZE
    omega
  · show b.cur = (b.releasedTail + min b.waiting (BUFSIZE - b.releasedTail) +
      (b.waiting - min b.waiting (BUFSIZE - b.releasedTail))) % BUFSIZE
    rw [cur_eq_releasedTail h.toLayout]
    congr 1
    omega
  · show min b.waiting (BUFSIZE - b.releasedTail) +
      (b.waiting - min b.waiting (BUFSIZE - b.releasedTail)) ≤ BUFSIZE
    omega
  · show b.waiting - min b.waiting (BUFSIZE - b.releasedTail) < BUFSIZE
    omega

/-- Releasing written bytes moves them from the buffer zone's part of the content to the file's. -/
theorem prepared_content {b : Aiobuf} (h : Settled b) : b.prepared.content = b.content := by
  have hreg := h.region
  have hfile : slice b.file b.size b.enqueued =
      slice (fun i => b.mem (i % BUFSIZE)) b.tail b.enqueued := by
    refine slice_eq_of_shift fun k hk => ?_
    rw [Nat.mod_eq_of_lt (by omega)]
    exact h.written k hk
  unfold content prepared
  dsimp only
  rw [show min b.waiting (BUFSIZE - b.releasedTail) +
    (b.waiting - min b.waiting (BUFSIZE - b.releasedTail)) = b.waiting by omega,
    releasedTail_eq h.toLayout, slice_mod_start, slice_append, slice_append, Nat.zero_add, hfile,
    List.append_assoc]

/-- Submitting a batch changes nothing but the request, whatever happens on the way. -/
theorem aioWrite_cases (again : ℕ) {b : Aiobuf} (free : b.request = none) :
    (∃ e k c, b.aioWrite again = (some e, { b with batch := k, clock := c, lost := true })) ∨
      ∃ r k c, b.aioWrite again = (none, { b with batch := k, clock := c, request := some r }) ∧
        r.offset = b.size ∧ r.buf = b.tail ∧ r.nbytes = b.enqueued ∧
        b.size + b.enqueued ≤ OFF_MAX ∧ ∀ i, r.moved i = false := by
  induction again generalizing b with
  | zero =>
    simp only [aioWrite]
    split
    · exact Or.inl ⟨_, _, _, rfl⟩
    · split_ifs with h
      · exact Or.inl ⟨_, _, _, rfl⟩
      · exact Or.inr ⟨_, _, _, rfl, rfl, rfl, rfl, Nat.le_of_not_gt h, fun _ => rfl⟩
  | succ again ih =>
    rw [aioWrite, tick_of_none free]
    exact ih (b := { b with clock := b.clock + 1 }) free

/-- What one call of `s_queue_aiobuf` does, from the state before to its return code and the state
after. -/
structure Queued (b : Aiobuf) (rc : QueueRc) (b' : Aiobuf) : Prop where
  inv : Inv b'
  content : b'.content = b.content
  neg : rc.neg = b'.lost
  zero : rc = .zero → b'.enqueued = 0 ∧ b'.waiting = 0
  inProgress : rc = .inProgress → b'.enqueued ≠ 0
  pending_le : b'.enqueued + b'.waiting ≤ b.enqueued + b.waiting

/-- From label `queue_as_is` on, with a batch that has not been submitted. -/
theorem queueAsIs_spec {b : Aiobuf} (lay : Layout b) (free : b.request = none)
    (ok : b.lost = false) :
    Inv b.queueAsIs.2 ∧ b.queueAsIs.2.content = b.content ∧
      b.queueAsIs.1.neg = b.queueAsIs.2.lost ∧
      (b.queueAsIs.1 = .zero → b.enqueued = 0) ∧
      (b.queueAsIs.1 = .inProgress → b.enqueued ≠ 0) ∧
      b.queueAsIs.2.enqueued = b.enqueued ∧ b.queueAsIs.2.waiting = b.waiting := by
  have lay' : ∀ d, Layout { b with dbg := d } := fun _ =>
    ⟨lay.tail_lt, lay.region, lay.cur_eq, lay.room, lay.waiting_lt, lay.size_le⟩
  have none' : ∀ r, b.request ≠ some r := fun r hr => by rw [free] at hr; cases hr
  unfold queueAsIs dbgAssert
  dsimp only
  split_ifs with he
  · refine ⟨⟨lay' _, fun r hr => absurd hr (none' r), fun _ hne => absurd he hne,
      fun hl => absurd (ok.symm.trans hl) (by decide)⟩, rfl, ok.symm, fun _ => he, by simp, rfl,
      rfl⟩
  · rcases aioWrite_cases (b.sched.fate b.batch).again
      (b := { b with dbg := b.dbg && decide (b.tail ≠ BUFSIZE) }) free with
      ⟨e, k, c, h⟩ | ⟨r, k, c, h, hoff, hbuf, hn, hmax, hmoved⟩
    · rw [h]
      exact ⟨⟨⟨lay.tail_lt, lay.region, lay.cur_eq, lay.room, lay.waiting_lt, lay.size_le⟩,
        fun r hr => absurd hr (none' r), fun hl => absurd hl (by simp),
        fun _ => ⟨he, fun r hr => absurd hr (none' r)⟩⟩, rfl, rfl, by simp, by simp, rfl, rfl⟩
    · rw [h]
      refine ⟨⟨⟨lay.tail_lt, lay.region, lay.cur_eq, lay.room, lay.waiting_lt, lay.size_le⟩,
        fun s hs => ?_, fun _ _ => ⟨r, rfl⟩, fun hl => absurd (ok.symm.trans hl) (by decide)⟩, rfl,
        ok.symm, by simp, fun _ => he, rfl, rfl⟩
      obtain rfl := Option.some.inj hs
      exact ⟨he, hoff, hbuf, hn, hmax, fun i _ hi => absurd (hmoved i ▸ hi) (by decide)⟩

/-- From label `prepare_next` on. -/
theorem prepareNext_spec {b : Aiobuf} (h : Settled b) :
    Queued b b.prepareNext.1 b.prepareNext.2 := by
  obtain ⟨d, hd⟩ := prepareNext_eq h.toLayout
  have lay := prepared_layout h
  obtain ⟨inv, hc, hneg, hz, hp, henq, hwait⟩ :=
    queueAsIs_spec (b := { b.prepared with dbg := d })
      ⟨lay.tail_lt, lay.region, lay.cur_eq, lay.room, lay.waiting_lt, lay.size_le⟩ h.request h.lost
  rw [← hd] at inv hc hneg hz hp henq hwait
  have ht := releasedTail_lt h.toLayout
  change _ = min b.waiting (BUFSIZE - b.releasedTail) at henq
  change _ = b.waiting - min b.waiting (BUFSIZE - b.releasedTail) at hwait
  change _ → min b.waiting (BUFSIZE - b.releasedTail) = 0 at hz
  change _ → min b.waiting (BUFSIZE - b.releasedTail) ≠ 0 at hp
  refine ⟨inv, hc.trans (prepared_content h), hneg, fun hrc => ?_, fun hrc => ?_, ?_⟩
  · have := hz hrc
    omega
  · rw [henq]
    exact hp hrc
  · omega

/-- A buffer that has lost something stays as it is and reports an error. -/
theorem queueAiobuf_of_lost {b : Aiobuf} (inv : Inv b) (hl : b.lost = true) (force : Bool) :
    b.queueAiobuf force = (.error, b) := by
  obtain ⟨hne, hdead⟩ := inv.dead hl
  unfold queueAiobuf aioError
  rw [if_neg hne]
  cases hr : b.request with
  | none => simp only [checkCompletion, ← hr, ← hl]
  | some r =>
    obtain ⟨hp, e, he⟩ := hdead r hr
    simp only [hp, he, checkCompletion, ne_eq, not_true_eq_false, if_false, ← hr, ← hl]

/-- The end of a request that did not fail: the bytes it counts are in the file. -/
def landed (r : Request) (b : Aiobuf) : Aiobuf :=
  { b with
    file := r.transfer (fun i => decide (i < r.count)) b.mem b.file
    request := none
    lost := b.lost || decide (r.count ≠ r.nbytes) }

theorem complete_of_failed {b : Aiobuf} {r : Request} (hr : b.request = some r)
    (done : r.polls = 0) {e : Errno} (ho : r.outcome = .failed e) :
    b.complete = (.error, { b with lost := true }) := by
  unfold complete aioError
  simp [hr, done, ho, checkCompletion]

theorem complete_of_landed {b : Aiobuf} {r : Request} (hr : b.request = some r)
    (done : r.polls = 0) (ho : ∀ e, r.outcome ≠ .failed e) :
    b.complete = if r.count ≠ b.enqueued then
      (.unexpected, (b.landed r).dbgAssert (decide (b.enqueued > 0))) else
      (b.landed r).prepareNext := by
  unfold complete aioError
  cases h : r.outcome with
  | failed e => exact absurd h (ho e)
  | complete =>
    simp only [hr, done, h, checkCompletion, aioReturn, Request.count, landed, ne_eq,
      not_true_eq_false, if_false]
  | short n =>
    simp only [hr, done, h, checkCompletion, aioReturn, Request.count, landed, ne_eq,
      not_true_eq_false, if_false]
    rfl

theorem landed_content {b : Aiobuf} {r : Request} (f : Flight b r) :
    (b.landed r).content = b.content := by
  have hfile : slice (b.landed r).file 0 b.size = slice b.file 0 b.size :=
    slice_congr fun i _ hi =>
      transfer_of_lt (k := i) r (fun i => decide (i < r.count)) b.mem b.file (by
        rw [f.offset]
        omega)
  unfold content
  exact congrArg (· ++ _) hfile

/-- After a full write the batch is in the file. -/
theorem landed_settled {b : Aiobuf} (inv : Inv b) (ok : b.lost = false) {r : Request}
    (hr : b.request = some r) (full : r.count = b.enqueued) : Settled (b.landed r) := by
  have f := inv.flight r hr
  have lay := inv.toLayout
  refine ⟨⟨lay.tail_lt, lay.region, lay.cur_eq, lay.room, lay.waiting_lt, lay.size_le⟩, f.le_max,
    rfl, ?_, fun i hi => ?_⟩
  · simp [landed, ok, full, f.nbytes]
  · have hi' : i < r.nbytes := f.nbytes ▸ hi
    have := transfer_agrees r (fun i => decide (i < r.count)) b.mem b.file hi' (f.moved i hi')
      (Or.inr (decide_eq_true (full ▸ hi)))
    rwa [f.offset, f.buf] at this

/-- The end of a request that is no longer in progress: an error is reported, or a short write, or
else the batch is in the file and the next one is prepared. -/
theorem complete_spec {b : Aiobuf} (inv : Inv b) (ok : b.lost = false) {r : Request}
    (hr : b.request = some r) (done : r.polls = 0) :
    Queued b b.complete.1 b.complete.2 := by
  have f := inv.flight r hr
  have lay := inv.toLayout
  by_cases ho : ∃ e, r.outcome = .failed e
  · obtain ⟨e, he⟩ := ho
    rw [complete_of_failed hr done he]
    refine ⟨⟨⟨lay.tail_lt, lay.region, lay.cur_eq, lay.room, lay.waiting_lt, lay.size_le⟩,
      fun s hs => ?_, by simp, fun _ => ⟨f.enqueued_ne, fun s hs => ?_⟩⟩, rfl, rfl, by simp,
      by simp, Nat.le_refl _⟩
    · have g := inv.flight s hs
      exact ⟨g.enqueued_ne, g.offset, g.buf, g.nbytes, g.le_max, g.moved⟩
    · obtain rfl := Option.some.inj (hr.symm.trans hs)
      exact ⟨done, e, he⟩
  · rw [complete_of_landed hr done (not_exists.1 ho)]
    split_ifs with hcnt
    · have hl : (b.landed r).lost = true := by
        simp [landed, f.nbytes, hcnt]
      refine ⟨⟨⟨lay.tail_lt, lay.region, lay.cur_eq, lay.room, lay.waiting_lt, lay.size_le⟩,
        fun s hs => ?_, fun hf => ?_, fun _ => ⟨f.enqueued_ne, fun s hs => ?_⟩⟩,
        landed_content f, hl.symm, by simp, by simp, Nat.le_refl _⟩
      · cases hs
      · exact absurd (hl.symm.trans hf) (by decide)
      · cases hs
    · have h := prepareNext_spec (landed_settled inv ok hr (not_not.1 hcnt))
      exact ⟨h.inv, h.content.trans (landed_content f), h.neg, h.zero, h.inProgress, h.pending_le⟩

/-- The kernel goes on; nothing that the task sees has changed. -/
structure Quiet (b b' : Aiobuf) : Prop where
  still : Still b b'
  inv : Inv b'
  content : b'.content = b.content
  lost : b'.lost = b.lost

/-- The polls left are the kernel's affair, and so is what it moves at the next moment. -/
theorem quiet_tick_polls {b : Aiobuf} (inv : Inv b) (ok : b.lost = false) {r : Request}
    (hr : b.request = some r) (n : ℕ) :
    Quiet b { b with request := some { r with polls := n } }.tick := by
  have lay := inv.toLayout
  have f := inv.flight r hr
  have inv' : Inv { b with request := some { r with polls := n } } := by
    refine ⟨⟨lay.tail_lt, lay.region, lay.cur_eq, lay.room, lay.waiting_lt, lay.size_le⟩,
      fun q hq => ?_, fun _ _ => ⟨_, rfl⟩, fun hl => absurd (ok.symm.trans hl) (by decide)⟩
    obtain rfl := Option.some.inj hq
    exact ⟨f.enqueued_ne, f.offset, f.buf, f.nbytes, f.le_max, f.moved⟩
  exact ⟨⟨tick_tail _, tick_cur _, tick_waiting _, tick_enqueued _, tick_mem _⟩, tick_inv inv',
    tick_content inv', tick_lost _⟩

theorem queued_of_quiet {b b' b'' : Aiobuf} {rc : QueueRc} (h : Quiet b b')
    (q : Queued b' rc b'') : Queued b rc b'' where
  inv := q.inv
  content := q.content.trans h.content
  neg := q.neg
  zero := q.zero
  inProgress := q.inProgress
  pending_le := by
    have := q.pending_le
    rwa [h.still.waiting, h.still.enqueued] at this

theorem settled_of_enqueued_eq_zero {b : Aiobuf} (inv : Inv b) (he : b.enqueued = 0) :
    Settled b := by
  refine ⟨inv.toLayout, by rw [he]; exact inv.size_le, ?_, ?_, fun i hi => by omega⟩
  · cases hr : b.request with
    | none => rfl
    | some r => exact absurd he (inv.flight r hr).enqueued_ne
  · cases hl : b.lost with
    | false => rfl
    | true => exact absurd he (inv.dead hl).1

theorem queueAiobuf_of_done {b : Aiobuf} {r : Request} (he : b.enqueued ≠ 0)
    (hr : b.request = some r) (done : r.polls = 0) (force : Bool) :
    b.queueAiobuf force = b.complete := by
  unfold queueAiobuf complete aioError
  rw [if_neg he, hr]
  cases ho : r.outcome <;> simp [done, ho]

theorem queueAiobuf_of_polls {b : Aiobuf} {r : Request} (he : b.enqueued ≠ 0)
    (hr : b.request = some r) (busy : r.polls ≠ 0) :
    ∃ b', b' = { b with request := some { r with polls := r.polls - 1 } }.tick ∧
      b.queueAiobuf false = (.inProgress, b') ∧ b.queueAiobuf true = b'.aioSuspend.2.complete := by
  refine ⟨_, rfl, ?_, ?_⟩
  · simp [queueAiobuf, he, aioError, hr, busy]
  · simp [queueAiobuf, he, aioError, hr, busy, aioSuspend, complete]

/-- One call of `s_queue_aiobuf`. -/
theorem queueAiobuf_spec {b : Aiobuf} (inv : Inv b) (force : Bool) :
    Queued b (b.queueAiobuf force).1 (b.queueAiobuf force).2 := by
  cases hl : b.lost with
  | true =>
    rw [queueAiobuf_of_lost inv hl]
    exact ⟨inv, rfl, hl.symm, by simp, by simp, Nat.le_refl _⟩
  | false =>
    by_cases he : b.enqueued = 0
    · rw [queueAiobuf, if_pos he]
      exact prepareNext_spec (settled_of_enqueued_eq_zero inv he)
    · obtain ⟨r, hr⟩ := inv.alive hl he
      by_cases done : r.polls = 0
      · rw [queueAiobuf_of_done he hr done]
        exact complete_spec inv hl hr done
      · obtain ⟨b', hb', hskip, hforce⟩ := queueAiobuf_of_polls he hr done
        have quiet : Quiet b b' := hb' ▸ quiet_tick_polls inv hl hr _
        cases force with
        | false =>
          rw [hskip]
          exact ⟨quiet.inv, quiet.content, (quiet.lost.trans hl).symm, by simp,
            fun _ => by rw [quiet.still.enqueued]; exact he,
            by rw [quiet.still.enqueued, quiet.still.waiting]⟩
        | true =>
          rw [hforce]
          have hl' := quiet.lost.trans hl
          obtain ⟨s, hs⟩ := quiet.inv.alive hl' (by rw [quiet.still.enqueued]; exact he)
          have ready := quiet_tick_polls quiet.inv hl' hs 0
          have heq : b'.aioSuspend.2 = { b' with request := some { s with polls := 0 } }.tick := by
            simp [aioSuspend, hs, Request.ready]
          obtain ⟨m, hm⟩ := tick_request (b := { b' with request := some { s with polls := 0 } }) rfl
          rw [heq]
          exact queued_of_quiet quiet (queued_of_quiet ready
            (complete_spec ready.inv (ready.lost.trans hl') hm rfl))

/-! ## Whole calls -/

theorem zone_of_layout {b : Aiobuf} (lay : Layout b) : Zone b where
  tail_lt := lay.tail_lt
  region := lay.region
  cur_lt := by
    rw [lay.cur_eq]
    exact Nat.mod_lt _ (by decide)

theorem pending_eq {b : Aiobuf} (lay : Layout b) : b.pending = b.enqueued + b.waiting :=
  Nat.mod_eq_of_lt (lay.room.trans_lt (by decide))

theorem queued_trans {b b' b'' : Aiobuf} {rc rc' : QueueRc} (h : Queued b rc b')
    (h' : Queued b' rc' b'') : Queued b rc' b'' :=
  ⟨h'.inv, h'.content.trans h.content, h'.neg, h'.zero, h'.inProgress,
    h'.pending_le.trans h.pending_le⟩

/-- The loop of `s_try_queue_aiobuf` stops with room for a frame or with an error. -/
theorem forceWrite_spec {fuel : ℕ} {jobrc rc : QueueRc} {b₀ b b' : Aiobuf}
    (q : Queued b₀ jobrc b) (h : b.forceWrite fuel jobrc = some (rc, b')) :
    Queued b₀ rc b' ∧ (rc = .inProgress → b'.enqueued + b'.waiting ≤ BUFSIZE - MTU) := by
  induction fuel generalizing jobrc b with
  | zero => cases h
  | succ fuel ih =>
    rw [forceWrite] at h
    split_ifs at h with hc
    · exact ih (queued_trans q (queueAiobuf_spec q.inv true)) h
    · cases h
      refine ⟨q, fun hp => ?_⟩
      rw [← pending_eq q.inv.toLayout]
      by_contra hgt
      exact hc ⟨Nat.lt_of_not_le hgt, hp⟩

/-- There is room for another frame, and nothing has failed. -/
structure Ready (b : Aiobuf) : Prop where
  room : b.enqueued + b.waiting ≤ BUFSIZE - MTU
  idle : b.enqueued = 0 → b.waiting < MINSIZE
  ok : b.lost = false

/-- What one call of `s_try_queue_aiobuf` does. -/
structure Appended (buf : List UInt8) (b : Aiobuf) (rc : QueueRc) (b' : Aiobuf) : Prop where
  inv : Inv b'
  content : b'.content = b.content ++ buf
  neg : rc.neg = b'.lost
  ready : b'.lost = false → Ready b'

theorem ready_of_queued {b b' : Aiobuf} {rc : QueueRc} (q : Queued b rc b')
    (hroom : rc = .inProgress → b'.enqueued + b'.waiting ≤ BUFSIZE - MTU) (ok : b'.lost = false) :
    Ready b' := by
  have hneg := q.neg
  rw [ok] at hneg
  cases rc with
  | zero =>
    obtain ⟨he, hw⟩ := q.zero rfl
    exact ⟨by omega, fun _ => by rw [hw]; decide, ok⟩
  | inProgress => exact ⟨hroom rfl, fun he => absurd he (q.inProgress rfl), ok⟩
  | error => cases hneg
  | unexpected => cases hneg

theorem dbgAssert_inv {b : Aiobuf} (inv : Inv b) (c : Bool) : Inv (b.dbgAssert c) := by
  have lay := inv.toLayout
  refine ⟨⟨lay.tail_lt, lay.region, lay.cur_eq, lay.room, lay.waiting_lt, lay.size_le⟩,
    fun r hr => ?_, inv.alive, inv.dead⟩
  have f := inv.flight r hr
  exact ⟨f.enqueued_ne, f.offset, f.buf, f.nbytes, f.le_max, f.moved⟩

/-- There is room for so many bytes, at most as many as one call can be given. -/
def HasRoom (b : Aiobuf) (len : ℕ) : Prop := b.enqueued + b.waiting + len ≤ BUFSIZE ∧ len < 2 ^ 16

theorem hasRoom_of_ready {b : Aiobuf} (ready : Ready b) {len : ℕ} (hlen : len ≤ MTU) :
    HasRoom b len := by
  have hroom := ready.room
  have hsizes : MTU < BUFSIZE ∧ MTU < 2 ^ 16 := by decide
  exact ⟨by omega, by omega⟩

theorem copyIn_of_ready {b : Aiobuf} (inv : Inv b) (ready : Ready b) {buf : List UInt8}
    (room : HasRoom b buf.length) :
    Inv ((b.dbgAssert (b.entryAsserts buf.length)).copyIn buf) ∧
      ((b.dbgAssert (b.entryAsserts buf.length)).copyIn buf).content = b.content ++ buf ∧
      ((b.dbgAssert (b.entryAsserts buf.length)).copyIn buf).lost = b.lost := by
  have hidle := ready.idle
  obtain ⟨hroom, hlen⟩ := room
  have hsizes : 2 ^ 16 + MINSIZE < BUFSIZE := by decide
  obtain ⟨inv', hc, -, -, hl⟩ := copyIn_spec (dbgAssert_inv inv (b.entryAsserts buf.length)) buf
    (by rwa [dbgAssert_enqueued, dbgAssert_waiting])
    (by
      -- only a buffer with nothing in flight could hold more, and then little is waiting
      rw [dbgAssert_waiting]
      by_cases h0 : b.enqueued = 0
      · have := hidle h0
        omega
      · omega)
  exact ⟨inv', hc, hl⟩

/-- Appending a buffer that there is room for. -/
theorem tryQueueAiobuf_spec {fuel : ℕ} {buf : List UInt8} {b b' : Aiobuf} {rc : QueueRc}
    (inv : Inv b) (ready : Ready b) (room : HasRoom b buf.length)
    (h : b.tryQueueAiobuf fuel buf = some (rc, b')) : Appended buf b rc b' := by
  obtain ⟨inv', hc, hl⟩ := copyIn_of_ready inv ready room
  rw [tryQueueAiobuf] at h
  dsimp only at h
  generalize copyIn buf (b.dbgAssert (b.entryAsserts buf.length)) = b₁ at inv' hc hl h
  split_ifs at h with hwait
  · cases h
    refine ⟨inv', hc, (hl.trans ready.ok).symm, fun ok => ⟨?_, fun _ => hwait.1, ok⟩⟩
    rw [← pending_eq inv'.toLayout]
    exact hwait.2.2
  · have q := queueAiobuf_spec inv' false
    cases hf : forceWrite fuel (b₁.queueAiobuf false).1 (b₁.queueAiobuf false).2 with
    | none => rw [hf] at h; cases h
    | some p =>
      obtain ⟨rc', b₂⟩ := p
      rw [hf] at h
      cases h
      obtain ⟨q', hr⟩ := forceWrite_spec q hf
      refine ⟨dbgAssert_inv q'.inv _, q'.content.trans hc, q'.neg, fun ok => ?_⟩
      have := ready_of_queued q' hr ok
      exact ⟨this.room, this.idle, this.ok⟩

theorem flushAiobuf_of_lost {fuel : ℕ} {b b' : Aiobuf} (inv : Inv b) (hl : b.lost = true)
    (h : b.flushAiobuf fuel = some b') : b' = b := by
  cases fuel with
  | zero => cases h
  | succ fuel =>
    rw [flushAiobuf, queueAiobuf_of_lost inv hl] at h
    exact (Option.some.inj h).symm

/-- A flush keeps the content; unless something was lost, all of it is in the file then. -/
theorem flushAiobuf_spec {fuel : ℕ} {b b' : Aiobuf} (inv : Inv b)
    (h : b.flushAiobuf fuel = some b') :
    Inv b' ∧ b'.content = b.content ∧
      (b'.lost = false → b'.enqueued = 0 ∧ b'.waiting = 0) := by
  induction fuel generalizing b with
  | zero => cases h
  | succ fuel ih =>
    have q := queueAiobuf_spec inv true
    rw [flushAiobuf] at h
    split at h
    · rename_i b₁ hq
      rw [hq] at q
      obtain ⟨inv', hc, hl⟩ := ih q.inv h
      exact ⟨inv', hc.trans q.content, hl⟩
    · rename_i rc b₁ hne hq
      rw [hq] at q
      cases h
      refine ⟨q.inv, q.content, fun ok => q.zero ?_⟩
      have hneg := q.neg
      rw [ok] at hneg
      cases rc with
      | zero => rfl
      | inProgress => exact (hne rfl).elim
      | error => cases hneg
      | unexpected => cases hneg

/-! ## A kernel without faults -/

/-- Every batch is accepted, however often `aio_write` answers `EAGAIN` first, and ends complete. -/
def Faultless (b : Aiobuf) : Prop :=
  (∀ i, (b.sched.fate i).refused = none ∧ (b.sched.fate i).outcome = .complete) ∧
    ∀ r, b.request = some r → r.outcome = .complete

theorem faultless_tick {b : Aiobuf} (fl : Faultless b) : Faultless b.tick := by
  refine ⟨fun i => by rw [tick_sched]; exact fl.1 i, fun r hr => ?_⟩
  cases hb : b.request with
  | none => rw [tick_request_eq_none.2 hb] at hr; cases hr
  | some s =>
    obtain ⟨m, hm⟩ := tick_request hb
    obtain rfl := Option.some.inj (hm.symm.trans hr)
    exact fl.2 s hb

theorem faultless_memcpy {b : Aiobuf} (fl : Faultless b) (xs : List UInt8) (dst : ℕ) :
    Faultless (b.memcpy xs dst) := by
  induction xs generalizing dst b with
  | nil => exact fl
  | cons x xs ih =>
    have fl' : Faultless { b with mem := Function.update b.mem dst x } := fl
    exact ih (faultless_tick fl') (dst + 1)

theorem aioWrite_of_faultless (again : ℕ) {b : Aiobuf} (fl : Faultless b)
    (fits : b.size + b.enqueued ≤ OFF_MAX) :
    (b.aioWrite again).2.lost = b.lost ∧ Faultless (b.aioWrite again).2 := by
  induction again generalizing b with
  | zero =>
    simp only [aioWrite, (fl.1 b.batch).1, gt_iff_lt, Nat.not_lt.2 fits, if_false]
    refine ⟨trivial, fl.1, fun r hr => ?_⟩
    obtain rfl := Option.some.inj hr
    exact (fl.1 b.batch).2
  | succ again ih =>
    obtain ⟨hl, fl'⟩ := ih (faultless_tick fl) (by simpa using fits)
    exact ⟨hl.trans (tick_lost b), fl'⟩

theorem queueAsIs_of_faultless {b : Aiobuf} (fl : Faultless b)
    (fits : b.size + b.enqueued ≤ OFF_MAX) :
    b.queueAsIs.2.lost = b.lost ∧ Faultless b.queueAsIs.2 := by
  unfold queueAsIs
  dsimp only
  generalize hb : b.dbgAssert (decide (b.tail ≠ BUFSIZE)) = b'
  have fl' : Faultless b' := by rw [← hb]; exact fl
  have hw := aioWrite_of_faultless (b'.sched.fate b'.batch).again fl' (by rw [← hb]; exact fits)
  have hl : b'.lost = b.lost := by rw [← hb]; rfl
  rw [hl] at hw
  split_ifs
  · exact ⟨hl, fl'⟩
  · split
    · rename_i hq
      rwa [hq] at hw
    · rename_i hq
      rwa [hq] at hw

theorem prepareNext_of_faultless {b : Aiobuf} (h : Settled b) (fl : Faultless b)
    (fits : b.content.length ≤ OFF_MAX) :
    b.prepareNext.2.lost = false ∧ Faultless b.prepareNext.2 := by
  obtain ⟨d, hd⟩ := prepareNext_eq h.toLayout
  have hlen := length_content b.prepared
  rw [prepared_content h] at hlen
  obtain ⟨hl, fl'⟩ := queueAsIs_of_faultless (b := { b.prepared with dbg := d }) fl
    (by dsimp only; omega)
  rw [← hd] at hl fl'
  exact ⟨hl.trans h.lost, fl'⟩

/-- Without faults, nothing is lost as long as the file stays below the largest offset. -/
theorem queueAiobuf_of_faultless {b : Aiobuf} (inv : Inv b) (ok : b.lost = false)
    (fl : Faultless b) (fits : b.content.length ≤ OFF_MAX) (force : Bool) :
    (b.queueAiobuf force).2.lost = false ∧ Faultless (b.queueAiobuf force).2 := by
  have ended : ∀ {b : Aiobuf} {r : Request}, Inv b → b.lost = false → Faultless b →
      b.content.length ≤ OFF_MAX → b.request = some r → r.polls = 0 →
      b.complete.2.lost = false ∧ Faultless b.complete.2 := by
    intro b r inv ok fl fits hr done
    have ho := fl.2 r hr
    have hfull : r.count = b.enqueued := by
      rw [Request.count, ho]
      exact (inv.flight r hr).nbytes
    rw [complete_of_landed hr done (by simp [ho]), if_neg (not_not.2 hfull)]
    exact prepareNext_of_faultless (landed_settled inv ok hr hfull) ⟨fl.1, by simp [landed]⟩
      (by rwa [landed_content (inv.flight r hr)])
  by_cases he : b.enqueued = 0
  · rw [queueAiobuf, if_pos he]
    exact prepareNext_of_faultless (settled_of_enqueued_eq_zero inv he) fl fits
  · obtain ⟨r, hr⟩ := inv.alive ok he
    by_cases done : r.polls = 0
    · rw [queueAiobuf_of_done he hr done]
      exact ended inv ok fl fits hr done
    · obtain ⟨b', hb', hskip, hforce⟩ := queueAiobuf_of_polls he hr done
      have quiet : Quiet b b' := hb' ▸ quiet_tick_polls inv ok hr _
      have fl' : Faultless b' := by
        rw [hb']
        refine faultless_tick ⟨fl.1, fun s hs => ?_⟩
        obtain rfl := Option.some.inj hs
        exact fl.2 r hr
      have ok' := quiet.lost.trans ok
      cases force with
      | false =>
        rw [hskip]
        exact ⟨ok', fl'⟩
      | true =>
        obtain ⟨s, hs⟩ := quiet.inv.alive ok' (by rw [quiet.still.enqueued]; exact he)
        have ready := quiet_tick_polls quiet.inv ok' hs 0
        have heq : b'.aioSuspend.2 = { b' with request := some { s with polls := 0 } }.tick := by
          simp [aioSuspend, hs, Request.ready]
        obtain ⟨m, hm⟩ := tick_request (b := { b' with request := some { s with polls := 0 } }) rfl
        rw [hforce, heq]
        refine ended ready.inv (ready.lost.trans ok') (faultless_tick ⟨fl'.1, fun q hq => ?_⟩) ?_ hm
          rfl
        · obtain rfl := Option.some.inj hq
          exact fl'.2 s hs
        · rwa [ready.content, quiet.content]

theorem forceWrite_of_faultless {fuel : ℕ} {jobrc rc : QueueRc} {b b' : Aiobuf} (inv : Inv b)
    (ok : b.lost = false) (fl : Faultless b) (fits : b.content.length ≤ OFF_MAX)
    (h : b.forceWrite fuel jobrc = some (rc, b')) : b'.lost = false ∧ Faultless b' := by
  induction fuel generalizing jobrc b with
  | zero => cases h
  | succ fuel ih =>
    rw [forceWrite] at h
    split_ifs at h
    · have q := queueAiobuf_spec inv true
      obtain ⟨ok', fl'⟩ := queueAiobuf_of_faultless inv ok fl fits true
      exact ih q.inv ok' fl' (by rwa [q.content]) h
    · cases h
      exact ⟨ok, fl⟩

theorem flushAiobuf_of_faultless {fuel : ℕ} {b b' : Aiobuf} (inv : Inv b) (ok : b.lost = false)
    (fl : Faultless b) (fits : b.content.length ≤ OFF_MAX) (h : b.flushAiobuf fuel = some b') :
    b'.lost = false := by
  induction fuel generalizing b with
  | zero => cases h
  | succ fuel ih =>
    have q := queueAiobuf_spec inv true
    obtain ⟨ok', fl'⟩ := queueAiobuf_of_faultless inv ok fl fits true
    rw [flushAiobuf] at h
    split at h
    · rename_i b₁ hq
      rw [hq] at q ok' fl'
      exact ih q.inv ok' fl' (by rwa [q.content]) h
    · rename_i rc b₁ hne hq
      rw [hq] at ok'
      cases h
      exact ok'

theorem faultless_copyIn {b : Aiobuf} (fl : Faultless b) (buf : List UInt8) :
    Faultless (b.copyIn buf) := by
  unfold copyIn
  dsimp only
  split_ifs
  · exact faultless_memcpy fl buf b.cur
  · exact faultless_memcpy (faultless_memcpy fl (buf.take (BUFSIZE - b.cur)) b.cur) _ 0

theorem tryQueueAiobuf_of_faultless {fuel : ℕ} {buf : List UInt8} {b b' : Aiobuf} {rc : QueueRc}
    (inv : Inv b) (ready : Ready b) (room : HasRoom b buf.length) (fl : Faultless b)
    (fits : b.content.length + buf.length ≤ OFF_MAX)
    (h : b.tryQueueAiobuf fuel buf = some (rc, b')) : b'.lost = false ∧ Faultless b' := by
  obtain ⟨inv', hc, hl⟩ := copyIn_of_ready inv ready room
  have fl₁ := faultless_copyIn (b := b.dbgAssert (b.entryAsserts buf.length)) fl buf
  rw [tryQueueAiobuf] at h
  dsimp only at h
  generalize copyIn buf (b.dbgAssert (b.entryAsserts buf.length)) = b₁ at inv' hc hl fl₁ h
  have ok := hl.trans ready.ok
  have hlen₁ : b₁.content.length ≤ OFF_MAX := by rwa [hc, List.length_append]
  split_ifs at h with hwait
  · cases h
    exact ⟨ok, fl₁⟩
  · have q := queueAiobuf_spec inv' false
    obtain ⟨ok', fl'⟩ := queueAiobuf_of_faultless inv' ok fl₁ hlen₁ false
    cases hf : forceWrite fuel (b₁.queueAiobuf false).1 (b₁.queueAiobuf false).2 with
    | none => rw [hf] at h; cases h
    | some p =>
      rw [hf] at h
      cases h
      obtain ⟨ok₂, fl₂⟩ := forceWrite_of_faultless q.inv ok' fl' (by rwa [q.content]) hf
      exact ⟨ok₂, fl₂⟩

/-! ## Runs -/

theorem fresh_inv (sched : Schedule) (mem : ℕ → UInt8) : Inv (fresh sched mem) :=
  ⟨⟨by simp [fresh, BUFSIZE], by simp [fresh], rfl, by simp [fresh], by simp [fresh, BUFSIZE],
    by simp [fresh]⟩, by simp [fresh], by simp [fresh], by simp [fresh]⟩

theorem fresh_ready (sched : Schedule) (mem : ℕ → UInt8) : Ready (fresh sched mem) :=
  ⟨by simp [fresh], fun _ => by simp [fresh, MINSIZE], rfl⟩

theorem fresh_content (sched : Schedule) (mem : ℕ → UInt8) : (fresh sched mem).content = [] := rfl

/-- Appending buffers in turn: all of them, unless something is lost. -/
theorem appendAll_spec {fuel : ℕ} (hf : 4 ≤ fuel) (bufs : List (List UInt8)) {b : Aiobuf}
    (inv : Inv b) (ready : Ready b) (hlen : ∀ d ∈ bufs, d.length ≤ MTU) :
    ∃ done b', b.appendAll fuel bufs = some (done, b') ∧ done <+: bufs ∧ Inv b' ∧
      b'.content = b.content ++ done.flatten ∧ (b'.lost = false → done = bufs) ∧
      (Faultless b → b.content.length + bufs.flatten.length ≤ OFF_MAX →
        b'.lost = false ∧ Faultless b') := by
  induction bufs generalizing b with
  | nil =>
    exact ⟨[], b, rfl, List.nil_prefix, inv, by simp, fun _ => rfl, fun fl _ => ⟨ready.ok, fl⟩⟩
  | cons d ds ih =>
    have hd : d.length ≤ MTU := hlen d (by simp)
    have room := hasRoom_of_ready ready hd
    obtain ⟨⟨rc, b₁⟩, h, -⟩ := tryQueueAiobuf_total hf (zone_of_layout inv.toLayout) d
      (hd.trans (by decide))
    have app := tryQueueAiobuf_spec inv ready room h
    rw [appendAll, h]
    dsimp only
    split_ifs with hneg
    · have hl := app.neg.symm.trans hneg
      refine ⟨[d], b₁, rfl, by simp, app.inv, by simpa using app.content,
        fun ok => absurd (hl.symm.trans ok) (by decide), fun fl fits => ?_⟩
      have := tryQueueAiobuf_of_faultless inv ready room fl (by simp at fits; omega) h
      exact absurd (hl.symm.trans this.1) (by decide)
    · have ok₁ : b₁.lost = false := by
        rw [← app.neg]
        exact Bool.eq_false_iff.2 hneg
      obtain ⟨done, b', ha, hpre, inv', hc, hdone, hfl⟩ :=
        ih app.inv (app.ready ok₁) fun e he => hlen e (List.mem_cons_of_mem _ he)
      refine ⟨d :: done, b', by rw [ha]; rfl, (List.prefix_cons_inj d).2 hpre, inv', ?_,
        fun ok => by rw [hdone ok], fun fl fits => ?_⟩
      · rw [hc, app.content, List.flatten_cons, List.append_assoc]
      · rw [List.flatten_cons, List.length_append] at fits
        have := tryQueueAiobuf_of_faultless inv ready room fl (by omega) h
        exact hfl this.2 (by rw [app.content, List.length_append]; omega)

/-- The file agrees with the concatenation of the buffers appended so far. -/
structure Refines (done : List (List UInt8)) (b : Aiobuf) : Prop where
  total : b.size + b.enqueued + b.waiting = done.flatten.length
  file : slice b.file 0 b.size = done.flatten.take b.size

theorem refines_of_content {done : List (List UInt8)} {b : Aiobuf}
    (h : b.content = done.flatten) : Refines done b := by
  refine ⟨by rw [← length_content, h], ?_⟩
  rw [← h, content, List.take_left' (length_slice _ _ _)]

/-- The write buffer refines an append-only file: every call ends, and at all times the file agrees
with what was appended; unless something was lost, the closed file is the concatenation. -/
theorem appendAll_flushAiobuf_refines (sched : Schedule) (mem : ℕ → UInt8) (fuel : ℕ)
    (hf : 4 ≤ fuel) (bufs : List (List UInt8))
    (hlen : ∀ d ∈ bufs, 1 ≤ d.length ∧ d.length ≤ MTU) :
    ∃ done b b', (fresh sched mem).appendAll fuel bufs = some (done, b) ∧
      b.flushAiobuf fuel = some b' ∧ done <+: bufs ∧ Refines done b ∧ Refines done b' ∧
      (b'.lost = false → done = bufs ∧ b'.size = bufs.flatten.length ∧
        b'.closedFile = bufs.flatten) ∧
      ((∀ i, (sched.fate i).refused = none ∧ (sched.fate i).outcome = .complete) →
        bufs.flatten.length ≤ OFF_MAX → b'.lost = false) := by
  obtain ⟨done, b, ha, hpre, inv, hc, hdone, hfl⟩ := appendAll_spec hf bufs (fresh_inv sched mem)
    (fresh_ready sched mem) fun d hd => (hlen d hd).2
  rw [fresh_content, List.nil_append] at hc
  obtain ⟨b', hb'⟩ := flushAiobuf_total (zone_of_layout inv.toLayout)
    (Nat.le_trans (Nat.add_le_add_right (rounds_le b) 1) (by omega : 2 + 1 ≤ fuel))
  obtain ⟨inv', hc', hempty⟩ := flushAiobuf_spec inv hb'
  have href := refines_of_content (hc'.trans hc)
  refine ⟨done, b, b', ha, hb', hpre, refines_of_content hc, href, fun ok => ?_,
    fun accepted fits => ?_⟩
  · have hall : done = bufs := by
      refine hdone (Bool.eq_false_iff.2 fun hl => ?_)
      rw [flushAiobuf_of_lost inv hl hb'] at ok
      exact absurd (hl.symm.trans ok) (by decide)
    obtain ⟨he, hw⟩ := hempty ok
    have htotal := href.total
    rw [he, hw, hall] at htotal
    refine ⟨hall, htotal, ?_⟩
    rw [closedFile, href.file, hall, List.take_of_length_le (by omega)]
  · have fl : Faultless (fresh sched mem) := ⟨accepted, by simp [fresh]⟩
    obtain ⟨ok, fl'⟩ := hfl fl (by rwa [fresh_content, List.length_nil, Nat.zero_add])
    refine flushAiobuf_of_faultless inv ok fl' ?_ hb'
    obtain ⟨rest, rfl⟩ := hpre
    rw [List.flatten_append, List.length_append] at fits
    rw [hc]
    omega

theorem appendAll_flushAiobuf_refines_three :
    ∃ b b', (fresh ⟨fun _ => ⟨1, none, 2, .complete⟩, fun t i => t == i⟩ fun _ => 7).appendAll 4
        [[1, 2], [3]] = some ([[1, 2], [3]], b) ∧
      b.flushAiobuf 4 = some b' ∧ b'.closedFile = [1, 2, 3] := by
  obtain ⟨done, b, b', ha, hb, -, -, -, hclosed, accepted⟩ :=
    appendAll_flushAiobuf_refines ⟨fun _ => ⟨1, none, 2, .complete⟩, fun t i => t == i⟩
      (fun _ => 7) 4 (by decide) [[1, 2], [3]] (by decide)
  obtain ⟨rfl, -, hfile⟩ := hclosed (accepted (fun _ => ⟨rfl, rfl⟩) (by decide))
  exact ⟨b, b', ha, hb, hfile⟩

end Aiobuf

end Tesd
