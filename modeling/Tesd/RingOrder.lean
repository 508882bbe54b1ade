import Mathlib.Data.List.Chain
import Tesd.Lib.Shares
import Tesd.Wakeup

/-!
# Frames on several rings

A run of frames with consecutive sequence numbers is distributed over the rings.  A wakeup handles
all frames of a ring before it looks at the other rings, so that the task gets the frames in their
order just if every ring's share of them has no gap.
-/

namespace Tesd

open Shares

/-! ## Consecutive frames -/

/-- The frames follow the sequence number `prev`, and each other, without a gap. -/
def GapFree : ℕ → List Slot → Prop
  | _, [] => True
  | prev, p :: ps => fseqGap p.pkt.fseq prev = 0 ∧ GapFree p.pkt.fseq ps

/-- The frames follow each other without a gap. -/
def Contiguous (ps : List Slot) : Prop := ps.IsChain fun p q => fseqGap q.pkt.fseq p.pkt.fseq = 0

/-- The calls for frames of which none is missed. -/
def inOrder (ps : List Slot) : List Call := ps.map fun p => ⟨p, 0⟩

theorem gapFree_append {prev : ℕ} {ps qs : List Slot} (h : GapFree prev (ps ++ qs)) :
    GapFree prev ps ∧ GapFree (lastFseq prev ps) qs := by
  induction ps generalizing prev with
  | nil => exact ⟨trivial, h⟩
  | cons p ps ih =>
    obtain ⟨h₁, h₂⟩ := ih h.2
    exact ⟨⟨h.1, h₁⟩, h₂⟩

theorem callsFrom_of_gapFree {prev : ℕ} {ps : List Slot} (h : GapFree prev ps) :
    callsFrom prev ps = inOrder ps := by
  induction ps generalizing prev with
  | nil => rfl
  | cons p ps ih =>
    rw [callsFrom, h.1, ih h.2]
    rfl

@[simp] theorem length_callsFrom (prev : ℕ) (ps : List Slot) :
    (callsFrom prev ps).length = ps.length := by
  induction ps generalizing prev with
  | nil => rfl
  | cons p ps ih => rw [callsFrom, List.length_cons, ih, List.length_cons]

/-- If the calls for some frames report none missed, there is no gap between the frames. -/
theorem contiguous_of_callsFrom {prev : ℕ} {ps : List Slot}
    (h : ∀ c ∈ callsFrom prev ps, c.missed = 0) : Contiguous ps := by
  induction ps generalizing prev with
  | nil => exact List.isChain_nil
  | cons p ps ih =>
    have htail : ∀ c ∈ callsFrom p.pkt.fseq ps, c.missed = 0 := fun c hc =>
      h c (List.mem_cons_of_mem _ hc)
    cases ps with
    | nil => exact List.isChain_singleton p
    | cons q ps =>
      apply List.IsChain.cons_cons
      · exact htail _ List.mem_cons_self
      · exact ih htail

theorem fseqGap_succ {prev cur next : ℕ} (h : fseqGap next cur = 0)
    (short : fseqGap cur prev + 1 < 2 ^ 16) : fseqGap next prev = fseqGap cur prev + 1 := by
  unfold fseqGap at h short ⊢
  omega

/-- Along a run the sequence numbers move away from `prev`. -/
theorem fseqGap_lt_of_gapFree {prev base : ℕ} {ps : List Slot} (h : GapFree base ps)
    (short : fseqGap base prev + ps.length < 2 ^ 16) :
    ∀ q ∈ ps, fseqGap base prev < fseqGap q.pkt.fseq prev := by
  induction ps generalizing base with
  | nil => simp
  | cons p ps ih =>
    intro q hq
    rw [List.length_cons] at short
    have hp := fseqGap_succ h.1 (show fseqGap base prev + 1 < 2 ^ 16 by omega)
    rcases List.mem_cons.1 hq with rfl | hq
    · omega
    · have := ih h.2 (by omega) q hq
      omega

/-- In a run that is shorter than a revolution no frame but the first follows `prev`. -/
theorem fseqGap_of_mem {prev : ℕ} {p q : Slot} {ps : List Slot} (h : GapFree prev (p :: ps))
    (short : ps.length < 2 ^ 16) (hq : q ∈ ps) : fseqGap q.pkt.fseq prev ≠ 0 := by
  have hfirst : fseqGap p.pkt.fseq prev = 0 := h.1
  have := fseqGap_lt_of_gapFree h.2 (show fseqGap p.pkt.fseq prev + ps.length < 2 ^ 16 by omega) q hq
  omega

/-- If a ring's share has no gap, then the frames of the ring that has the first frame all come
before the other frames. -/
theorem exists_block {ι : Type} [DecidableEq ι] {prev : ℕ} {r : ι} {p : Slot}
    {fs : List (ι × Slot)} (gapFree : GapFree prev (p :: fs.map Prod.snd))
    (short : fs.length < 2 ^ 16) (contiguous : Contiguous (share r ((r, p) :: fs))) :
    ∃ block rest, fs = block ++ rest ∧ (∀ x ∈ block, x.1 = r) ∧ ∀ x ∈ rest, x.1 ≠ r := by
  induction fs generalizing prev p with
  | nil => exact ⟨[], [], rfl, by simp, by simp⟩
  | cons x fs ih =>
    obtain ⟨q, p'⟩ := x
    rw [List.length_cons] at short
    by_cases hq : q = r
    · subst hq
      rw [share_cons_self, share_cons_self] at contiguous
      obtain ⟨block, rest, rfl, hblock, hrest⟩ := ih gapFree.2 (by omega) (by
        rw [share_cons_self]
        exact contiguous.tail)
      exact ⟨(q, p') :: block, rest, rfl, by simpa using hblock, hrest⟩
    · -- a later frame of ring `r` would have to follow `p`, but `p'` does
      refine ⟨[], (q, p') :: fs, rfl, by simp, ?_⟩
      rw [share_cons_self, share_cons_of_ne hq] at contiguous
      have hnil : share r fs = [] := by
        cases hshare : share r fs with
        | nil => rfl
        | cons s ss =>
          rw [hshare] at contiguous
          have hs : s ∈ fs.map Prod.snd := by
            have : (r, s) ∈ fs := mem_share.1 (by rw [hshare]; exact List.mem_cons_self)
            exact List.mem_map.2 ⟨_, this, rfl⟩
          have hgap := fseqGap_of_mem gapFree.2 (by rw [List.length_map]; omega) hs
          exact absurd (List.isChain_cons_cons.1 contiguous).1 hgap
      intro x hx
      rcases List.mem_cons.1 hx with rfl | hx
      · exact hq
      · exact share_eq_nil.1 hnil x hx

namespace Task

variable {nr : ℕ} {δ : Type} {hooks : Hooks nr δ} {rings : Fin nr → Ring} {task task' : Task nr δ}
  {calls : List Call}

/-! ## Serving the rings in a given order -/

/-- The task after it has read the packet at the head of a ring. -/
def readHead (hooks : Hooks nr δ) (rings : Fin nr → Ring) (r : Fin nr) (task : Task nr δ) :
    Task nr δ :=
  (task.look hooks rings r).advance rings r

/-- The calls when one packet is taken from each of these rings in turn, until the packet handler
wants no more. -/
def serve (hooks : Hooks nr δ) (rings : Fin nr → Ring) : List (Fin nr) → Task nr δ → List Call
  | [], _ => []
  | r :: rs, task => task.headCall rings r ::
    if (task.handle hooks rings r).1 = .zero then serve hooks rings rs (task.readHead hooks rings r)
    else []

/-- The packet handler returns `0` for every packet taken from these rings in turn, but perhaps for
the last. -/
def Wants (hooks : Hooks nr δ) (rings : Fin nr → Ring) : List (Fin nr) → Task nr δ → Prop
  | [], _ => True
  | [_], _ => True
  | r :: q :: rs, task => (task.handle hooks rings r).1 = .zero ∧
    Wants hooks rings (q :: rs) (task.readHead hooks rings r)

/-- All packets are taken just if the packet handler wants them. -/
theorem length_serve_iff (rs : List (Fin nr)) (task : Task nr δ) :
    (serve hooks rings rs task).length = rs.length ↔ Wants hooks rings rs task := by
  induction rs generalizing task with
  | nil => exact ⟨fun _ => trivial, fun _ => rfl⟩
  | cons r rs ih =>
    rw [serve, List.length_cons, List.length_cons, Nat.add_right_cancel_iff]
    cases rs with
    | nil =>
      refine ⟨fun _ => trivial, fun _ => ?_⟩
      split_ifs <;> rfl
    | cons q rs =>
      rw [Wants, ← ih]
      split_ifs with hz
      · exact ⟨fun h => ⟨hz, h⟩, And.right⟩
      · exact ⟨fun h => absurd h (by simp), fun h => absurd h.1 hz⟩

/-- A ring that is read to its tail is served that often in a row. -/
theorem dispatch_serve {r : Fin nr} {rc : TaskRc} {fuel : ℕ} (ok : (rings r).Ok)
    (h : task.dispatch hooks rings r fuel = some (rc, task', calls))
    (holds : (rings r).Holds (task.heads r)) (rs : List (Fin nr)) :
    serve hooks rings (List.replicate (task.unread rings r).length r ++ rs) task =
      calls ++ if rc = .zero then serve hooks rings rs task' else [] := by
  induction fuel generalizing task calls with
  | zero => cases h
  | succ fuel ih =>
    by_cases ne : task.heads r = (rings r).tail
    · rw [dispatch_of_tail fuel ne] at h
      cases h
      rw [unread, ne, Ring.between_self, List.length_nil, List.replicate_zero, if_pos rfl,
        List.nil_append, List.nil_append]
    · rw [unread_of_ne hooks ok holds ne, List.length_cons, List.replicate_succ, List.cons_append,
        serve]
      rw [dispatch_of_ne fuel ne] at h
      dsimp only at h
      split_ifs at h with hrc
      · -- the packet handler wants no more
        cases h
        rw [if_neg hrc, if_neg hrc]
        rfl
      · rw [ne_eq, not_not] at hrc
        obtain ⟨⟨rc₁, task₁, calls₁⟩, h₁, heq⟩ := Option.map_eq_some_iff.1 h
        cases heq
        have hrest := ih h₁ (holds_advance (task.look hooks rings r) ok holds ne)
        rw [if_pos hrc, List.cons_append, readHead, hrest]
        rfl

/-! ## The ring with the next frame -/

section NextRing

variable {l : List (Fin nr)} {missed : ℕ} {next : Option (Fin nr)} {r : Fin nr}

/-- The ring whose head follows the last frame is chosen, if no other ring's head does. -/
theorem closestRing_of_gap (hr : r ∈ l) (ne : task.heads r ≠ (rings r).tail)
    (gap : (task.headCall rings r).missed = 0)
    (only : ∀ q, q ≠ r → task.heads q ≠ (rings q).tail → (task.headCall rings q).missed ≠ 0) :
    (closestRing rings task l missed next).1 = some r := by
  induction l generalizing missed next with
  | nil => cases hr
  | cons q l ih =>
    rw [closestRing]
    dsimp only
    by_cases hq : q = r
    · subst hq
      have hgap : fseqGap ((rings q).slot (task.heads q)).pkt.fseq task.prevFseq = 0 := gap
      rw [if_neg (Ne.symm ne), if_pos (by rw [hgap]; exact Nat.zero_le _), if_pos hgap]
    · have hl := (List.mem_cons.1 hr).resolve_left (Ne.symm hq)
      split_ifs with hempty hle hzero
      · exact ih hl
      · exact absurd hzero (only q hq (Ne.symm hempty))
      · exact ih hl
      · exact ih hl

end NextRing

/-! ## One wakeup -/

/-- The frames that the task has not read are these, each on the ring that it is tagged with. -/
structure Offers (rings : Fin nr → Ring) (frames : List (Fin nr × Slot)) (task : Task nr δ) :
    Prop where
  holds : task.Holds rings
  underway : task.justActivated = false
  shares : ∀ r, task.unread rings r = share r frames

section Process

variable {readersOk : Bool} {len fuel : ℕ} {frames : List (Fin nr × Slot)}

theorem head_of_unread {r : Fin nr} {p : Slot} {ps : List Slot} (ok : (rings r).Ok)
    (holds : (rings r).Holds (task.heads r)) (h : task.unread rings r = p :: ps) :
    task.heads r ≠ (rings r).tail ∧ (rings r).slot (task.heads r) = p := by
  have ne : task.heads r ≠ (rings r).tail := by
    intro htail
    rw [unread, htail, Ring.between_self] at h
    cases h
  refine ⟨ne, ?_⟩
  rw [unread, Ring.between_cons ok holds ne] at h
  exact (List.cons.inj h).1

theorem unread_eq_nil {r : Fin nr} (holds : (rings r).Holds (task.heads r)) :
    task.unread rings r = [] ↔ task.heads r = (rings r).tail := by
  rw [← List.length_eq_zero_iff, unread, Ring.length_between, Circular.dist_eq_zero holds.lt]

theorem nextRing_eq (underway : task.justActivated = false) :
    task.nextRing rings = (closestRing rings task (List.finRange nr) 0xFFFF none, task) := by
  rw [nextRing, if_neg (by simp [underway])]

theorem nextRing_of_nil (offers : task.Offers rings []) :
    (task.nextRing rings).1.1 = none := by
  rw [nextRing_eq offers.underway, closestRing_of_tail]
  intro r _
  exact (unread_eq_nil (offers.holds r)).1 (offers.shares r)

theorem nextRing_of_cons {r : Fin nr} {p : Slot} {fs : List (Fin nr × Slot)} (ok : ∀ r, (rings r).Ok)
    (offers : task.Offers rings ((r, p) :: fs)) (short : fs.length < 2 ^ 16)
    (gapFree : GapFree task.prevFseq (p :: fs.map Prod.snd)) :
    (task.nextRing rings).1.1 = some r := by
  rw [nextRing_eq offers.underway]
  have hr := offers.shares r
  rw [share_cons_self] at hr
  obtain ⟨ne, hslot⟩ := head_of_unread (ok r) (offers.holds r) hr
  apply closestRing_of_gap (List.mem_finRange r) ne
  · rw [headCall, hslot]
    exact gapFree.1
  · intro q hq hne
    have hq' := offers.shares q
    rw [share_cons_of_ne (Ne.symm hq), unread, Ring.between_cons (ok q) (offers.holds q) hne] at hq'
    have hmem : (q, (rings q).slot (task.heads q)) ∈ fs :=
      mem_share.1 (by rw [← hq']; exact List.mem_cons_self)
    exact fseqGap_of_mem gapFree (by rwa [List.length_map]) (List.mem_map.2 ⟨_, hmem, rfl⟩)

theorem eq_of_underway {task : Task nr δ} (underway : task.justActivated = false) :
    { task with justActivated := false } = task := by
  rw [← underway]

/-- A ring that was read to its tail offers nothing any more, and the others what they did. -/
theorem offers_of_dispatched {r : Fin nr} {rest : List (Fin nr × Slot)}
    (h : Dispatched rings r task .zero task' calls) (offers : task.Offers rings frames)
    (hself : share r rest = []) (hother : ∀ q, q ≠ r → share q rest = share q frames) :
    task'.Offers rings rest := by
  have holds := holds_of_dispatched h offers.holds
  refine ⟨holds, h.justActivated.trans offers.underway, fun q => ?_⟩
  by_cases hq : q = r
  · subst hq
    obtain ⟨_, _, -, -, -, -, hzero⟩ := h.handled
    rw [hself]
    exact (unread_eq_nil (holds q)).2 (hzero rfl).2
  · rw [hother q hq, ← offers.shares q, unread, h.heads q hq, unread]

/-- If no ring's share has a gap, the rings are served in the order of the frames. -/
theorem process_serve (ok : ∀ r, (rings r).Ok)
    (h : process hooks rings readersOk len fuel task = some (task', calls))
    (offers : task.Offers rings frames) (gapFree : GapFree task.prevFseq (frames.map Prod.snd))
    (short : frames.length ≤ 2 ^ 16) (contiguous : ∀ r, Contiguous (share r frames)) :
    calls = serve hooks rings (frames.map Prod.fst) task := by
  induction fuel generalizing task calls frames with
  | zero => cases h
  | succ fuel ih =>
    have hsame : (task.nextRing rings).2 = task := by rw [nextRing_eq offers.underway]
    cases frames with
    | nil =>
      rcases process_cases h with ⟨-, -, rfl⟩ | ⟨r, rc, task₁, calls₁, hsome, -⟩
      · rfl
      · cases (nextRing_of_nil offers).symm.trans hsome
    | cons x fs =>
      obtain ⟨r, p⟩ := x
      rw [List.length_cons] at short
      have hnext := nextRing_of_cons ok offers (by omega) gapFree
      rcases process_cases h with ⟨hnone, -⟩ | ⟨r', rc, task₁, calls₁, hsome, hd, hrc⟩
      · cases hnext.symm.trans hnone
      obtain rfl : r = r' := Option.some.inj (hnext.symm.trans hsome)
      rw [hsame] at hd
      obtain ⟨block, rest, rfl, hblock, hrest⟩ := exists_block gapFree (by omega) (contiguous r)
      have hself : share r rest = [] := share_eq_nil.2 hrest
      have hunread : task.unread rings r = p :: block.map Prod.snd := by
        rw [offers.shares r, share_cons_self, share_append, hself, List.append_nil,
          share_of_forall hblock]
      have hrings : ((r, p) :: (block ++ rest)).map Prod.fst =
          List.replicate (task.unread rings r).length r ++ rest.map Prod.fst := by
        rw [hunread, List.length_cons, List.length_map, List.replicate_succ, List.map_cons,
          List.map_append, List.cons_append]
        congr 2
        apply List.eq_replicate_of_mem _ |>.trans
        · rw [List.length_map]
        · intro q hq
          obtain ⟨x, hx, rfl⟩ := List.mem_map.1 hq
          exact hblock x hx
      have disp := dispatch_spec (ok r) hd (offers.holds r)
      rw [hrings, dispatch_serve (ok r) hd (offers.holds r)]
      rcases hrc with ⟨rfl, rfl, -⟩ | ⟨rfl, rfl, -⟩ | ⟨rfl, more, rfl, hmore⟩
      · rw [if_neg (by decide), List.append_nil]
      · rw [if_neg (by decide), List.append_nil]
      · have hother : ∀ q, q ≠ r → share q rest = share q ((r, p) :: (block ++ rest)) := by
          intro q hq
          have hnil : share q block = [] := share_eq_nil.2 fun x hx => by
            rw [hblock x hx]
            exact Ne.symm hq
          rw [share_cons_of_ne (Ne.symm hq), share_append, hnil, List.nil_append]
        have offers₁ := offers_of_dispatched disp offers hself hother
        rw [eq_of_underway offers₁.underway] at hmore
        obtain ⟨done, left, happ, -, hprev, -, hall⟩ := disp.handled
        obtain rfl := (hall rfl).1
        rw [List.append_nil, hunread] at happ
        rw [if_pos rfl]
        congr 1
        apply ih hmore offers₁
        · rw [hprev, happ]
          apply (gapFree_append _).2
          · rw [List.cons_append, ← List.map_append]
            exact gapFree
        · rw [List.length_append] at short
          omega
        · intro q
          by_cases hq : q = r
          · rw [hq, hself]
            exact List.isChain_nil
          · rw [hother q hq]
            exact contiguous q

/-- If all frames are handled and none is reported missing, no ring's share has a gap. -/
theorem contiguous_of_process (ok : ∀ r, (rings r).Ok)
    (h : process hooks rings readersOk len fuel task = some (task', calls))
    (offers : task.Offers rings frames) (all : calls.length = frames.length)
    (missed : ∀ c ∈ calls, c.missed = 0) (q : Fin nr) : Contiguous (share q frames) := by
  induction fuel generalizing task calls frames with
  | zero => cases h
  | succ fuel ih =>
    have hsame : (task.nextRing rings).2 = task := by rw [nextRing_eq offers.underway]
    rcases process_cases h with ⟨-, -, rfl⟩ | ⟨r, rc, task₁, calls₁, -, hd, hrc⟩
    · obtain rfl : frames = [] := List.length_eq_zero_iff.1 all.symm
      exact List.isChain_nil
    · rw [hsame] at hd
      have disp := dispatch_spec (ok r) hd (offers.holds r)
      obtain ⟨done, left, happ, hcalls, -, -, hzero⟩ := disp.handled
      have hlen : calls₁.length = done.length := by rw [hcalls, length_callsFrom]
      have hshare := congrArg List.length (happ.trans (offers.shares r))
      rw [List.length_append] at hshare
      have htotal := length_share_add_others r frames
      have hdone : (∀ c ∈ calls₁, c.missed = 0) → left = [] → Contiguous (share r frames) := by
        rintro hm rfl
        rw [← offers.shares r, ← happ, List.append_nil]
        rw [hcalls] at hm
        exact contiguous_of_callsFrom hm
      -- a handler that wants no more has been given all frames, so that there is only one ring
      have hlast : calls = calls₁ → Contiguous (share q frames) := by
        rintro rfl
        have hleft : left = [] := List.length_eq_zero_iff.1 (by omega)
        by_cases hq : q = r
        · rw [hq]
          exact hdone missed hleft
        · have hothers : others r frames = [] := List.length_eq_zero_iff.1 (by omega)
          rw [← share_others_of_ne hq, hothers]
          exact List.isChain_nil
      rcases hrc with ⟨-, hcall, -⟩ | ⟨-, hcall, -⟩ | ⟨rfl, more, rfl, hmore⟩
      · exact hlast hcall
      · exact hlast hcall
      · obtain ⟨rfl, -⟩ := hzero rfl
        have offers₁ := offers_of_dispatched disp offers (share_others_self r frames)
          fun q hq => share_others_of_ne hq frames
        rw [eq_of_underway offers₁.underway] at hmore
        rw [List.length_append] at all
        rw [List.length_nil] at hshare
        have hrest := ih hmore offers₁ (by omega) fun c hc =>
          missed c (List.mem_append_right _ hc)
        by_cases hq : q = r
        · rw [hq]
          exact hdone (fun c hc => missed c (List.mem_append_left _ hc)) rfl
        · rwa [share_others_of_ne hq] at hrest

/-- Frames that are taken in their order are handled as they come. -/
theorem serve_of_wants (ok : ∀ r, (rings r).Ok) (offers : task.Offers rings frames)
    (wants : Wants hooks rings (frames.map Prod.fst) task) :
    serve hooks rings (frames.map Prod.fst) task =
      callsFrom task.prevFseq (frames.map Prod.snd) := by
  induction frames generalizing task with
  | nil => rfl
  | cons x fs ih =>
    obtain ⟨r, p⟩ := x
    have hr := offers.shares r
    rw [share_cons_self] at hr
    obtain ⟨ne, hslot⟩ := head_of_unread (ok r) (offers.holds r) hr
    rw [List.map_cons, List.map_cons, serve, callsFrom, headCall, hslot]
    congr 1
    cases fs with
    | nil => split_ifs <;> rfl
    | cons y fs =>
      obtain ⟨hz, hwants⟩ := wants
      rw [if_pos hz]
      have offers₁ : (task.readHead hooks rings r).Offers rings (y :: fs) := by
        refine ⟨fun q => ?_, offers.underway, fun q => ?_⟩
        · by_cases hq : q = r
          · rw [hq]
            exact holds_advance (task.look hooks rings r) (ok r) (offers.holds r) ne
          · rw [readHead, advance]
            dsimp only
            rw [Function.update_of_ne hq]
            exact offers.holds q
        · by_cases hq : q = r
          · subst hq
            rw [unread_of_ne hooks (ok q) (offers.holds q) ne] at hr
            exact (List.cons.inj hr).2
          · have hq' := offers.shares q
            rw [share_cons_of_ne (Ne.symm hq)] at hq'
            rw [← hq', readHead, advance, unread, unread]
            dsimp only
            rw [Function.update_of_ne hq]
            rfl
      rw [ih offers₁ hwants, readHead]
      congr 1
      rw [← hslot]
      rfl

end Process

/-- A task that is woken once with a run of consecutive frames on its rings handles them all, in
order and none missing, just if no ring's share of the run has a gap and the packet handler does not
stop before the last frame. -/
theorem handled_in_order_iff (hooks : Hooks nr δ) (rings : Fin nr → Ring) (readersOk : Bool)
    (fuel : ℕ) (task : Task nr δ) (frames : List (Fin nr × Slot)) (ok : ∀ r, (rings r).Ok)
    (enough : ∀ r, (rings r).numSlots ≤ fuel) (hfuel : nr < fuel) (active : task.active = true)
    (offers : task.Offers rings frames) (gapFree : GapFree task.prevFseq (frames.map Prod.snd))
    (short : frames.length < 2 ^ 15) :
    (∃ rc task', task.sigHn hooks rings readersOk fuel .wakeup =
        some (rc, task', inOrder (frames.map Prod.snd))) ↔
      (∀ r, Contiguous (share r frames)) ∧
        Wants hooks rings (frames.map Prod.fst) { task with busy := true } := by
  have offers₁ : ({ task with busy := true } : Task nr δ).Offers rings frames :=
    ⟨offers.holds, offers.underway, offers.shares⟩
  have hcard : (({ task with busy := true } : Task nr δ).behind rings).card < fuel :=
    Nat.lt_of_le_of_lt (Finset.card_le_univ _) (by rwa [Fintype.card_fin])
  obtain ⟨⟨task₁, calls⟩, hp⟩ := Option.isSome_iff_exists.1
    (process_isSome hooks readersOk ok enough hcard offers₁.holds)
  have hsig : task.sigHn hooks rings readersOk fuel .wakeup =
      some (if task₁.error then -1 else 0, { task₁ with busy := false }, calls) := by
    rw [sigHn]
    dsimp only
    rw [if_neg (by decide), if_neg (by simp [active]), hp]
  constructor
  · rintro ⟨rc, task', h⟩
    obtain rfl : calls = inOrder (frames.map Prod.snd) := by
      rw [hsig] at h
      cases h
      rfl
    have hlen : (inOrder (frames.map Prod.snd)).length = frames.length := by
      rw [inOrder, List.length_map, List.length_map]
    have contiguous := contiguous_of_process ok hp offers₁ hlen (by
      intro c hc
      obtain ⟨p, -, rfl⟩ := List.mem_map.1 hc
      rfl)
    refine ⟨contiguous, ?_⟩
    have hserve := process_serve ok hp offers₁ gapFree (by omega) contiguous
    rw [← length_serve_iff, ← hserve, hlen, List.length_map]
  · rintro ⟨contiguous, wants⟩
    have hserve := process_serve ok hp offers₁ gapFree (by omega) contiguous
    rw [serve_of_wants ok offers₁ wants, callsFrom_of_gapFree gapFree] at hserve
    exact ⟨_, _, by rw [hsig, hserve]⟩

/-! ## Small distributions -/

/-- A tick with this sequence number. -/
def tickAt (fseq : UInt8) : Slot := .sample 48 0xB5 48 fseq 0 3 2 [1]

/-- Four rings of eight slots with these frames on them. -/
def ringsWith (frames : List (Fin 4 × Slot)) : Fin 4 → Ring := fun r =>
  ⟨8, 0, 0, (share r frames).length, fun i => (share r frames).getD i (tickAt 0)⟩

/-- A task that has processed the frame with the sequence number 0. -/
def taskAt0 : Task 4 Unit := ⟨fun _ => 0, 0, 0, 0, false, false, false, true, ()⟩

theorem holds_taskAt0 (frames : List (Fin 4 × Slot)) : taskAt0.Holds (ringsWith frames) :=
  fun _ => ⟨Nat.zero_lt_succ 7, Nat.le_trans (Nat.le_of_eq (Circular.dist_self 0)) (Nat.zero_le _)⟩

/-- A packet handler that always returns `0`. -/
def keepOn : Hooks 4 Unit := ⟨fun _ _ _ _ _ => (.zero, ()), fun _ => (true, ())⟩

theorem handled_in_order_iff_sample :
    ∃ rc task', taskAt0.sigHn keepOn
        (ringsWith [(0, tickAt 1), (0, tickAt 2), (2, tickAt 3)]) true 16 .wakeup =
      some (rc, task', [⟨tickAt 1, 0⟩, ⟨tickAt 2, 0⟩, ⟨tickAt 3, 0⟩]) := by
  apply (handled_in_order_iff keepOn (ringsWith [(0, tickAt 1), (0, tickAt 2), (2, tickAt 3)]) true
    16 taskAt0 [(0, tickAt 1), (0, tickAt 2), (2, tickAt 3)] ?_ ?_ ?_ ?_ ?_ ?_ ?_).2
  · refine ⟨fun r => ?_, rfl, rfl, trivial⟩
    unfold Contiguous
    revert r
    decide
  · exact fun r => ⟨by decide +revert, by decide +revert⟩
  · exact fun _ => (by decide : 8 ≤ 16)
  · decide
  · rfl
  · exact ⟨holds_taskAt0 _, rfl, fun r => match r with
      | 0 => rfl
      | 1 => rfl
      | 2 => rfl
      | 3 => rfl⟩
  · exact ⟨rfl, rfl, rfl, trivial⟩
  · decide

/-- Frames 1 and 3 on one ring and frame 2 on another are handled out of order. -/
theorem not_handled_in_order :
    ¬ ∀ (rings : Fin 4 → Ring) (task : Task 4 Unit) (frames : List (Fin 4 × Slot)),
      (∀ r, (rings r).Ok) → (∀ r, (rings r).numSlots ≤ 16) → task.active = true →
      task.Offers rings frames → GapFree task.prevFseq (frames.map Prod.snd) →
      frames.length < 2 ^ 15 →
      ∃ rc task', task.sigHn keepOn rings true 16 .wakeup =
        some (rc, task', inOrder (frames.map Prod.snd)) := by
  intro h
  obtain ⟨rc, task', hsig⟩ := h (ringsWith [(0, tickAt 1), (1, tickAt 2), (0, tickAt 3)]) taskAt0
    [(0, tickAt 1), (1, tickAt 2), (0, tickAt 3)]
    (fun r => ⟨by decide +revert, by decide +revert⟩) (fun _ => (by decide : 8 ≤ 16)) rfl
    ⟨holds_taskAt0 _, rfl, fun r => match r with
      | 0 => rfl
      | 1 => rfl
      | 2 => rfl
      | 3 => rfl⟩
    ⟨rfl, rfl, rfl, trivial⟩ (by decide)
  have hmissed := congrArg (Option.map fun (p : ℤ × Task 4 Unit × List Call) =>
    p.2.2.map Call.missed) hsig
  exact absurd (Option.some.inj hmissed : [0, 1, 65534] = [0, 0, 0]) (by decide)

end Task

end Tesd
