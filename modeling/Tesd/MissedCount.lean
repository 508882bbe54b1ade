import Mathlib.Algebra.BigOperators.Group.List.Basic
import Tesd.Release

/-!
# The packets that the coordinator counts as missed

For each ring and each release `s_new_pkts_hn` compares the first and the last packet released.  The
tasks see the jump from every packet to the next one, also where one release ends and another one
begins.
-/

namespace Tesd

/-! ## The jumps in a sequence of packets -/

/-- The sum of the jumps up to each of these packets, after an earlier one. -/
def gapsFrom : Option Slot → List Slot → ℕ
  | _, [] => 0
  | none, q :: slots => gapsFrom (some q) slots
  | some p, q :: slots => fseqGap q.pkt.fseq p.pkt.fseq + gapsFrom (some q) slots

/-- The sum of the jumps from one packet to the next. -/
def gapSum (slots : List Slot) : ℕ := gapsFrom none slots

/-- The last packet so far. -/
def lastOf (prev : Option Slot) (slots : List Slot) : Option Slot := slots.getLast?.or prev

/-- The jump to the first packet of a batch. -/
def seam : Option Slot → List Slot → ℕ
  | some p, q :: _ => fseqGap q.pkt.fseq p.pkt.fseq
  | _, _ => 0

/-- The sum of the jumps from the last packet of a batch to the first packet of the next one. -/
def seamSum : Option Slot → List (List Slot) → ℕ
  | _, [] => 0
  | prev, batch :: batches => seam prev batch + seamSum (lastOf prev batch) batches

theorem gapsFrom_eq (prev : Option Slot) (slots : List Slot) :
    gapsFrom prev slots = seam prev slots + gapSum slots := by
  cases slots with
  | nil => cases prev <;> rfl
  | cons q slots =>
    cases prev with
    | none => simp [seam, gapSum]
    | some p => rfl

theorem lastOf_cons (prev : Option Slot) (q : Slot) (slots : List Slot) :
    lastOf prev (q :: slots) = lastOf (some q) slots := by
  unfold lastOf
  rw [List.getLast?_cons]
  cases slots.getLast? <;> rfl

theorem gapsFrom_append (prev : Option Slot) (slots more : List Slot) :
    gapsFrom prev (slots ++ more) = gapsFrom prev slots + gapsFrom (lastOf prev slots) more := by
  induction slots generalizing prev with
  | nil => cases prev <;> simp [gapsFrom, lastOf]
  | cons q slots ih =>
    rw [lastOf_cons]
    cases prev with
    | none => exact ih (some q)
    | some p => rw [List.cons_append, gapsFrom, gapsFrom, ih, Nat.add_assoc]

/-- The jumps within the batches and those between them. -/
theorem gapsFrom_flatten (prev : Option Slot) (batches : List (List Slot)) :
    gapsFrom prev batches.flatten = (batches.map gapSum).sum + seamSum prev batches := by
  induction batches generalizing prev with
  | nil => cases prev <;> rfl
  | cons batch batches ih =>
    rw [List.flatten_cons, gapsFrom_append, gapsFrom_eq, ih, List.map_cons, List.sum_cons, seamSum]
    omega

/-- Modulo `2 ^ 16` the jumps from a first packet to a last one add up to the difference of their
sequence numbers, less one for each step. -/
theorem gapsFrom_mod (p q : Slot) (slots : List Slot) :
    (gapsFrom (some p) (slots ++ [q]) : ℤ) % 2 ^ 16 =
      (q.pkt.fseq - p.pkt.fseq - (slots.length + 1)) % 2 ^ 16 := by
  induction slots generalizing p with
  | nil =>
    simp only [List.nil_append, gapsFrom, fseqGap, List.length_nil]
    omega
  | cons r slots ih =>
    have hrest := ih r
    simp only [List.cons_append, gapsFrom, fseqGap, List.length_cons] at hrest ⊢
    omega

/-! ## One ring -/

namespace Ring

variable {ring : Ring} {head : Option ℕ} {newHead : ℕ}

/-- The packets counted as missed in the turn of a ring. -/
def numMissed (head : Option ℕ) (ring : Ring) : ℕ :=
  match ring.newHead head with
  | none => 0
  | some newHead => (ring.releaseTo newHead).2.1

theorem preceding_spec (lt : newHead < ring.numSlots) :
    ring.preceding newHead < ring.numSlots ∧ ring.following (ring.preceding newHead) = newHead := by
  unfold preceding following
  split_ifs <;> omega

/-- The packets up to a slot end with the one in the slot before it. -/
theorem between_preceding (ok : ring.Ok) (lt : newHead < ring.numSlots)
    (ne : newHead ≠ ring.head) :
    ring.between ring.head newHead = ring.between ring.head (ring.preceding newHead) ++
      [ring.slot (ring.preceding newHead)] := by
  obtain ⟨hlt, hnext⟩ := preceding_spec lt
  rw [following_eq] at hnext
  unfold between
  conv_lhs => rw [← hnext]
  rw [Circular.walk_concat ok.head hlt (by rwa [hnext]), List.map_append, List.map_singleton]

/-- What is counted in a turn is the sum of the jumps within the packets that it releases. -/
theorem numMissed_mod (ok : ring.Ok) (cur : ring.cur = ring.head)
    (holds : ∀ h, head = some h → ring.Holds h) :
    ring.numMissed head % 2 ^ 16 =
      gapSum (ring.between ring.head (ring.released head).head) % 2 ^ 16 := by
  unfold numMissed released
  cases hnew : ring.newHead head with
  | none =>
    dsimp only
    rw [between_self]
    rfl
  | some id =>
    have hlt : id < ring.numSlots := by
      rw [newHead_eq_some hnew]
      cases head with
      | none => exact ok.tail
      | some h => exact (holds h rfl).lt
    have hne : id ≠ ring.head := by
      unfold newHead at hnew
      dsimp only at hnew
      split_ifs at hnew with hempty hsame
      rw [← Option.some.inj hnew]
      exact hsame
    have hspec := releaseTo_spec id ring
    have hlen := @length_between ring ring.head id
    have hbatch := between_preceding ok hlt hne
    have hmissed : (ring.releaseTo id).2.1 =
        (((ring.slot (ring.preceding id)).pkt.fseq : ℤ) - (ring.slot ring.head).pkt.fseq -
          Circular.dist ring.numSlots ring.head id + 1) % 2 ^ 16 := by
      rw [← hspec.2, ← cur]
      unfold releaseTo
      dsimp only
      omega
    dsimp only
    rw [hspec.1.head]
    by_cases hone : ring.head = ring.preceding id
    · rw [← hone] at hbatch hmissed
      rw [hbatch, between_self, List.nil_append, List.length_singleton] at hlen
      rw [hbatch, between_self, List.nil_append]
      change _ = 0 % 2 ^ 16
      omega
    · have hcons : ring.between ring.head (ring.preceding id) =
          ring.slot ring.head :: ring.between (ring.following ring.head) (ring.preceding id) := by
        unfold between
        rw [Circular.walk_cons ok.head (preceding_spec hlt).1 hone, List.map_cons, following_eq]
      have hgaps := gapsFrom_mod (ring.slot ring.head) (ring.slot (ring.preceding id))
        (ring.between (ring.following ring.head) (ring.preceding id))
      rw [hcons, List.cons_append] at hbatch
      rw [hbatch, List.length_cons, List.length_append, List.length_singleton] at hlen
      rw [hbatch]
      change _ = gapsFrom (some _) _ % 2 ^ 16
      omega

/-- A release leaves the cursor at the head. -/
theorem cur_released (head : Option ℕ) (cur : ring.cur = ring.head) :
    (ring.released head).cur = (ring.released head).head := by
  unfold released
  cases ring.newHead head with
  | none => exact cur
  | some id => rfl

end Ring

/-! ## A call of the coordinator -/

namespace Sys

variable {nr nt : ℕ} {δ : Type} {s s' : Sys nr nt δ} {a : Action nr nt δ}
  {hooks : Fin nt → Hooks nr δ} {fuel : ℕ}

/-- What an action adds to `latest.missed` for a ring. -/
def missedIn (r : Fin nr) (a : Action nr nt δ) (s : Sys nr nt δ) : ℕ :=
  match a with
  | .newPkts true => (s.rings r).numMissed (s.slowest.map (· r))
  | _ => 0

/-- The packets that an action releases from a ring, as a batch. -/
def batch (hooks : Fin nt → Hooks nr δ) (fuel : ℕ) (r : Fin nr) (a : Action nr nt δ)
    (s : Sys nr nt δ) : List (List Slot) := [released hooks fuel r a s]

/-- The heads are held by the rings, and every cursor is at its ring's head. -/
structure Aligned (s : Sys nr nt δ) : Prop extends Ok s where
  cur : ∀ r, (s.rings r).cur = (s.rings r).head

theorem foldl_missed (heads : Option (Fin nr → ℕ)) (l : List (Fin nr)) (nodup : l.Nodup)
    (p : Sys nr nt δ × Bool) :
    (l.foldl (releaseRing heads) p).1.latest.missed =
      p.1.latest.missed + (l.map fun r => (p.1.rings r).numMissed (heads.map (· r))).sum := by
  induction l generalizing p with
  | nil => rfl
  | cons q l ih =>
    rw [List.nodup_cons] at nodup
    have hq : (releaseRing heads p q).1.latest.missed =
        p.1.latest.missed + (p.1.rings q).numMissed (heads.map (· q)) := by
      unfold releaseRing Ring.numMissed
      cases (p.1.rings q).newHead (heads.map (· q)) <;> rfl
    have hmap : l.map (fun r => ((releaseRing heads p q).1.rings r).numMissed (heads.map (· r))) =
        l.map fun r => (p.1.rings r).numMissed (heads.map (· r)) := by
      refine List.map_congr_left fun r hr => ?_
      have hne : r ∉ [q] := fun hmem => nodup.1 (List.mem_singleton.1 hmem ▸ hr)
      have hring : (releaseRing heads p q).1.rings r = p.1.rings r :=
        ((foldl_releaseRing heads [q] (List.nodup_singleton q) p).2.1 r).trans (if_neg hne)
      rw [hring]
    rw [List.foldl_cons, ih nodup.2, hq, hmap, List.map_cons, List.sum_cons, Nat.add_assoc]

/-- A call that is not cut short counts for every ring, and releases what it counts for. -/
theorem newPktsHn_missed (s : Sys nr nt δ) :
    (s.newPktsHn true).2.latest.missed =
        s.latest.missed + ((List.finRange nr).map fun r => missedIn r (.newPkts true) s).sum ∧
      ∀ r, (s.newPktsHn true).2.rings r = (s.rings r).released (s.slowest.map (· r)) := by
  have hmissed := foldl_missed s.slowest (List.finRange nr) (List.nodup_finRange nr)
    ({ s with latest := { s.latest with polled := s.latest.polled + 1 } }, true)
  have hrings := (foldl_releaseRing s.slowest (List.finRange nr) (List.nodup_finRange nr)
    ({ s with latest := { s.latest with polled := s.latest.polled + 1 } }, true)).2.1
  have hnew : ∃ skipped, (s.newPktsHn true).2 =
      (fun p : Sys nr nt δ => { p with latest := { p.latest with skipped := skipped } })
        ((List.finRange nr).foldl (releaseRing s.slowest)
          ({ s with latest := { s.latest with polled := s.latest.polled + 1 } }, true)).1 := by
    unfold newPktsHn slowest
    dsimp only
    rw [Bool.not_true, if_neg (by decide)]
    split_ifs <;> exact ⟨_, rfl⟩
  obtain ⟨skipped, hnew⟩ := hnew
  rw [hnew]
  refine ⟨hmissed, fun r => ?_⟩
  exact (hrings r).trans (if_pos (List.mem_finRange r))

/-- Only a call of the coordinator that is not cut short moves heads and cursors, and counts. -/
theorem quiet_or_newPkts (h : step hooks fuel a s = some s') :
    (a = .newPkts true ∧ s' = (s.newPktsHn true).2) ∨
      ((∀ r, missedIn r a s = 0) ∧ s'.latest = s.latest ∧
        ∀ r, (s'.rings r).head = (s.rings r).head ∧ (s'.rings r).cur = (s.rings r).cur) := by
  cases a with
  | deliver q pkt =>
    obtain ⟨ring, hring, rfl⟩ := Option.map_eq_some_iff.1 h
    obtain ⟨-, rfl⟩ := Ring.deliver_eq hring
    refine Or.inr ⟨fun r => rfl, rfl, fun r => ?_⟩
    by_cases hr : r = q
    · subst hr
      rw [setRing_self]
      exact ⟨rfl, rfl⟩
    · rw [setRing_of_ne _ hr]
      exact ⟨rfl, rfl⟩
  | advance t q =>
    rw [step] at h
    split_ifs at h
    cases h
    exact Or.inr ⟨fun _ => rfl, rfl, fun _ => ⟨rfl, rfl⟩⟩
  | request t data =>
    cases h
    exact Or.inr ⟨fun _ => rfl, rfl, fun _ => ⟨rfl, rfl⟩⟩
  | activate t =>
    rw [step] at h
    split_ifs at h
    cases h
    exact Or.inr ⟨fun _ => rfl, rfl, fun _ => ⟨rfl, rfl⟩⟩
  | deactivate t readersOk =>
    cases h
    exact Or.inr ⟨fun _ => rfl, rfl, fun _ => ⟨rfl, rfl⟩⟩
  | sigHn t sig readersOk =>
    rw [step] at h
    split_ifs at h
    obtain ⟨⟨rc, task, calls⟩, -, rfl⟩ := Option.map_eq_some_iff.1 h
    exact Or.inr ⟨fun _ => rfl, rfl, fun _ => ⟨rfl, rfl⟩⟩
  | newPkts signalled =>
    cases h
    cases signalled with
    | false => exact Or.inr ⟨fun _ => rfl, rfl, fun _ => ⟨rfl, rfl⟩⟩
    | true => exact Or.inl ⟨rfl, rfl⟩

theorem aligned_step (a : Action nr nt δ) (s s' : Sys nr nt δ) (aligned : s.Aligned)
    (h : step hooks fuel a s = some s') : s'.Aligned := by
  refine ⟨(stepped aligned.toOk h).ok, fun r => ?_⟩
  rcases quiet_or_newPkts h with ⟨-, rfl⟩ | ⟨-, -, hrings⟩
  · rw [(newPktsHn_missed s).2 r]
    exact Ring.cur_released _ (aligned.cur r)
  · rw [(hrings r).1, (hrings r).2]
    exact aligned.cur r

/-- What an action counts for a ring is the sum of the jumps within the packets that it releases. -/
theorem missedIn_mod (aligned : s.Aligned) (h : step hooks fuel a s = some s') (r : Fin nr) :
    missedIn r a s % 2 ^ 16 = gapSum (released hooks fuel r a s) % 2 ^ 16 := by
  have hrel : released hooks fuel r a s =
      (s.rings r).between (s.rings r).head (s'.rings r).head := by rw [released, h]
  rw [hrel]
  rcases quiet_or_newPkts h with ⟨rfl, rfl⟩ | ⟨hmissed, -, hrings⟩
  · rw [(newPktsHn_missed s).2 r]
    refine Ring.numMissed_mod (aligned.rings r) (aligned.cur r) fun id hid => ?_
    have hholds := nearestHead_holds aligned.toOk (slowest_spec aligned.toOk r)
    rwa [hid] at hholds
  · rw [hmissed r, (hrings r).1, Ring.between_self]
    rfl

theorem missed_step (a : Action nr nt δ) (s s' : Sys nr nt δ) (h : step hooks fuel a s = some s') :
    s'.latest.missed =
      s.latest.missed + ((List.finRange nr).map fun r => missedIn r a s).sum := by
  rcases quiet_or_newPkts h with ⟨rfl, rfl⟩ | ⟨hmissed, hlatest, -⟩
  · exact (newPktsHn_missed s).1
  · simp [hmissed, hlatest]

/-! ## Every run -/

/-- Over a run, the coordinator counts the jumps within the batches that it releases from a ring. -/
theorem total_missedIn (r : Fin nr) {acts : List (Action nr nt δ)} (aligned : s.Aligned)
    (h : Runs.run (step hooks fuel) acts s = some s') :
    Runs.total (step hooks fuel) (missedIn r) acts s % 2 ^ 16 =
      ((Runs.collect (step hooks fuel) (batch hooks fuel r) acts s).map gapSum).sum % 2 ^ 16 := by
  induction acts generalizing s with
  | nil => rfl
  | cons a acts ih =>
    obtain ⟨t, ht, hrest⟩ := Runs.run_cons h
    have hstep := missedIn_mod aligned ht r
    have hrun := ih (aligned_step a s t aligned ht) hrest
    rw [Runs.total_cons ht, Runs.collect_cons ht, batch, List.singleton_append, List.map_cons,
      List.sum_cons]
    omega

theorem flatten_batches (r : Fin nr) {acts : List (Action nr nt δ)}
    (h : Runs.run (step hooks fuel) acts s = some s') :
    (Runs.collect (step hooks fuel) (batch hooks fuel r) acts s).flatten =
      Runs.collect (step hooks fuel) (released hooks fuel r) acts s := by
  induction acts generalizing s with
  | nil => rfl
  | cons a acts ih =>
    obtain ⟨t, ht, hrest⟩ := Runs.run_cons h
    rw [Runs.collect_cons ht, Runs.collect_cons ht, batch, List.singleton_append,
      List.flatten_cons, ih hrest]

/-- `latest.missed` grows by what is counted for the rings. -/
theorem missed_run {acts : List (Action nr nt δ)}
    (h : Runs.run (step hooks fuel) acts s = some s') :
    s'.latest.missed = s.latest.missed +
      ((List.finRange nr).map fun r => Runs.total (step hooks fuel) (missedIn r) acts s).sum := by
  induction acts generalizing s with
  | nil =>
    obtain rfl := Option.some.inj h
    simp [Runs.total, Runs.collect]
  | cons a acts ih =>
    obtain ⟨t, ht, hrest⟩ := Runs.run_cons h
    have hsum : ((List.finRange nr).map fun r =>
        Runs.total (step hooks fuel) (missedIn r) (a :: acts) s).sum =
          ((List.finRange nr).map fun r => missedIn r a s).sum +
            ((List.finRange nr).map fun r =>
              Runs.total (step hooks fuel) (missedIn r) acts t).sum := by
      rw [← List.sum_map_add]
      simp only [Runs.total_cons ht]
    rw [ih hrest, missed_step a s t ht, hsum, Nat.add_assoc]

/-- For each ring the coordinator counts the jumps from each released packet to the next one, the
jumps that the tasks see, exactly if the jumps from one batch to the next add up to nothing. -/
theorem missed_iff (hooks : Fin nt → Hooks nr δ) (fuel : ℕ) {acts : List (Action nr nt δ)}
    {s s' : Sys nr nt δ} (aligned : s.Aligned)
    (h : Runs.run (step hooks fuel) acts s = some s') :
    s'.latest.missed = s.latest.missed +
        ((List.finRange nr).map fun r => Runs.total (step hooks fuel) (missedIn r) acts s).sum ∧
      ∀ r, Runs.total (step hooks fuel) (missedIn r) acts s % 2 ^ 16 =
          gapSum (Runs.collect (step hooks fuel) (released hooks fuel r) acts s) % 2 ^ 16 ↔
        seamSum none (Runs.collect (step hooks fuel) (batch hooks fuel r) acts s) % 2 ^ 16 = 0 := by
  refine ⟨missed_run h, fun r => ?_⟩
  have htotal := total_missedIn r aligned h
  have hflat := gapsFrom_flatten none
    (Runs.collect (step hooks fuel) (batch hooks fuel r) acts s)
  rw [flatten_batches r h] at hflat
  rw [htotal, gapSum, hflat]
  omega

/-! ## A small run -/

theorem sample_aligned : sample.Aligned :=
  ⟨⟨sample_ok, fun _ ht => nomatch ht⟩, fun _ => rfl⟩

/-- Packets 0 and 2, released one after the other. -/
def twoReleases : List (Action 1 1 Unit) :=
  [.deliver sole (samplePkt 0), .newPkts true, .deliver sole (samplePkt 2), .newPkts true]

theorem missed_iff_twoReleases : ∃ s', Runs.run (step (sampleHooks .zero) 0) twoReleases sample =
    some s' ∧ s'.latest.missed = 0 := by
  have hrun : Runs.run (step (sampleHooks .zero) 0) twoReleases sample = some _ := rfl
  exact ⟨_, hrun, (missed_iff (sampleHooks .zero) 0 sample_aligned hrun).1⟩

/-- The packet between them is not counted. -/
theorem not_missed : ¬∀ (acts : List (Action 1 1 Unit)) s',
    Runs.run (step (sampleHooks .zero) 0) acts sample = some s' →
      (s'.latest.missed - sample.latest.missed) % 2 ^ 16 =
        gapSum (Runs.collect (step (sampleHooks .zero) 0) (released (sampleHooks .zero) 0 0) acts
          sample) % 2 ^ 16 := by
  intro hall
  have hrun : Runs.run (step (sampleHooks .zero) 0) twoReleases sample = some _ := rfl
  have hcount := hall twoReleases _ hrun
  revert hcount
  decide

end Sys

end Tesd
