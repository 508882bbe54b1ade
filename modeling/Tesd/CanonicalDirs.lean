import Tesd.CapFiles
import Tesd.Lib.PathMaking

/-!
# Directories that a file name creates

The loop of `s_canonicalize_path` makes the directories of a path name, one for each segment before
the last.  Where it gets to a directory, that is the one the segments lead to, and what it has
created are the directories that were missing on the way.
-/

namespace Tesd

open Posix FileSystem

variable {w : CapWorld} {fs fs' : FileSystem} {segs pre post : List CStr} {seg c : CStr}
  {buf buf' : CStr} {s t : Place} {p q : Path}

/-- A segment that is not empty and fits. -/
theorem canonicalizeDirs_cons (w : CapWorld) (fs : FileSystem) (segs : List CStr)
    (nonempty : seg ≠ []) (room : buf.length + (seg.length + 1) < PATH_MAX) :
    canonicalizeDirs w (seg :: segs) buf fs =
      match fs.mkdir w.rights (buf ++ seg ++ ['/']) with
      | (.error .EEXIST, fs) => canonicalizeDirs w segs (buf ++ seg ++ ['/']) fs
      | (.error _, fs) => (none, fs)
      | (.ok _, fs) => canonicalizeDirs w segs (buf ++ seg ++ ['/']) fs := by
  rw [canonicalizeDirs]
  exact (if_neg nonempty).trans (if_neg (Nat.not_le.2 room))

theorem canonicalizeDirs_empty (w : CapWorld) (segs : List CStr) (buf : CStr) (fs : FileSystem) :
    canonicalizeDirs w ([] :: segs) buf fs = canonicalizeDirs w segs buf fs := by
  rw [canonicalizeDirs, if_pos rfl]

/-- Once the name leads nowhere, the loop creates nothing more. -/
theorem canonicalizeDirs_of_lost (lost : ∀ q, fs.resolve w.rights buf ≠ .ok q)
    (ends : ∃ x, buf = x ++ ['/']) (slash : ∀ seg ∈ segs, '/' ∉ seg) :
    canonicalizeDirs w segs buf fs = (none, fs) ∨
      canonicalizeDirs w segs buf fs = (some buf, fs) := by
  induction segs with
  | nil => exact Or.inr rfl
  | cons seg segs ih =>
    rw [List.forall_mem_cons] at slash
    by_cases hempty : seg = []
    · subst hempty
      rw [canonicalizeDirs_empty]
      exact ih slash.2
    by_cases hroom : buf.length + (seg.length + 1) < PATH_MAX
    · obtain ⟨e, hmkdir, he⟩ := mkdir_of_lost lost ends hempty slash.1
      left
      rw [canonicalizeDirs_cons w fs segs hempty hroom, hmkdir]
      cases e with
      | EEXIST => exact absurd rfl he
      | _ => rfl
    · left
      rw [canonicalizeDirs, if_neg hempty, if_pos (Nat.not_lt.1 hroom)]

/-! ## One segment -/

theorem canonicalizeDirs_past {n : ℕ} {d : Path} (at_ : s.At w.rights buf) (nonempty : seg ≠ [])
    (slash : '/' ∉ seg) (room : s.Room seg)
    (walks : Walks s.fs w.rights s.links s.dir [seg, []] n d) :
    canonicalizeDirs w (seg :: segs) buf s.fs =
      canonicalizeDirs w segs (buf ++ seg ++ ['/']) s.fs := by
  have hroom : buf.length + (seg.length + 1) < PATH_MAX := at_.len ▸ room
  rw [canonicalizeDirs_cons w s.fs segs nonempty hroom, at_.mkdir_of_walks nonempty slash walks]

theorem canonicalizeDirs_made (at_ : s.At w.rights buf) (can : s.CanMake w.rights seg) :
    canonicalizeDirs w (seg :: segs) buf s.fs =
      canonicalizeDirs w segs (buf ++ seg ++ ['/']) (s.made seg).fs := by
  have hroom : buf.length + (seg.length + 1) < PATH_MAX := at_.len ▸ can.room
  rw [canonicalizeDirs_cons w s.fs segs can.can.legal.nonempty hroom,
    at_.mkdir_of_canCreate can.can]

/-- What the loop does at a segment that is neither followed nor made. -/
theorem canonicalizeDirs_stuck (at_ : s.At w.rights buf) (nonempty : seg ≠ [])
    (slash : ∀ c ∈ seg :: segs, '/' ∉ c) (can : ¬ s.CanMake w.rights seg)
    (walks : s.Room seg → ∀ n d, ¬ Walks s.fs w.rights s.links s.dir [seg, []] n d) :
    (canonicalizeDirs w (seg :: segs) buf s.fs).2 = s.fs ∧
      ∀ buf', (canonicalizeDirs w (seg :: segs) buf s.fs).1 = some buf' →
        ∀ q, s.fs.resolve w.rights buf' ≠ .ok q := by
  rw [List.forall_mem_cons] at slash
  by_cases hroom : buf.length + (seg.length + 1) < PATH_MAX
  · have room : s.Room seg := by
      rw [Place.Room, at_.len]
      exact hroom
    have hcan : ¬ s.fs.CanCreate w.rights s.dir seg := fun h => can ⟨room, h⟩
    have hlost : ∀ q, s.fs.resolve w.rights (buf ++ seg ++ ['/']) ≠ .ok q := by
      intro q hq
      obtain ⟨n, hwalks⟩ := (at_.resolve_child slash.1).1 hq
      exact walks room n q hwalks
    obtain ⟨e, hmkdir⟩ := at_.mkdir_of_not_canCreate nonempty slash.1 hcan
    rw [canonicalizeDirs_cons w s.fs segs nonempty hroom, hmkdir]
    cases e with
    | EEXIST =>
      rcases canonicalizeDirs_of_lost hlost ⟨_, rfl⟩ slash.2 with h | h
      · dsimp only
        rw [h]
        exact ⟨rfl, fun _ h => by cases h⟩
      · dsimp only
        rw [h]
        exact ⟨rfl, fun _ h => Option.some.inj h ▸ hlost⟩
    | _ => exact ⟨rfl, fun _ h => by cases h⟩
  · rw [canonicalizeDirs, if_neg nonempty, if_pos (Nat.not_lt.1 hroom)]
    exact ⟨rfl, fun _ h => by cases h⟩

/-! ## All segments -/

/-- The loop gets to the place that the segments lead to. -/
theorem canonicalizeDirs_of_paves (paves : Paves w.rights s pre t) (at_ : s.At w.rights buf)
    (slash : ∀ c ∈ pre, '/' ∉ c) : ∃ buf', t.At w.rights buf' ∧ ∀ segs,
      canonicalizeDirs w (pre ++ segs) buf s.fs = canonicalizeDirs w segs buf' t.fs := by
  induction paves generalizing buf with
  | nil => exact ⟨buf, at_, fun _ => rfl⟩
  | empty _ ih =>
    obtain ⟨buf', hat, hsegs⟩ := ih at_ fun c hc => slash c (List.mem_cons_of_mem _ hc)
    refine ⟨buf', hat, fun segs => ?_⟩
    rw [List.cons_append, canonicalizeDirs_empty, hsegs]
  | walk nonempty room walks _ ih =>
    rw [List.forall_mem_cons] at slash
    obtain ⟨buf', hat, hsegs⟩ := ih (at_.past slash.1 walks) slash.2
    refine ⟨buf', hat, fun segs => ?_⟩
    rw [List.cons_append, canonicalizeDirs_past at_ nonempty slash.1 room walks]
    exact hsegs segs
  | make can _ ih =>
    rw [List.forall_mem_cons] at slash
    obtain ⟨buf', hat, hsegs⟩ := ih (at_.made can.can) slash.2
    refine ⟨buf', hat, fun segs => ?_⟩
    rw [List.cons_append, canonicalizeDirs_made at_ can]
    exact hsegs segs

/-- Where the loop gets to a directory, the segments lead there. -/
theorem paves_of_canonicalizeDirs (at_ : s.At w.rights buf) (slash : ∀ c ∈ segs, '/' ∉ c)
    (h : canonicalizeDirs w segs buf s.fs = (some buf', fs'))
    (resolves : fs'.resolve w.rights buf' = .ok q) :
    ∃ t, Paves w.rights s segs t ∧ t.fs = fs' ∧ t.dir = q := by
  induction segs generalizing s buf with
  | nil =>
    obtain ⟨hbuf, rfl⟩ := Prod.mk.inj h
    obtain rfl := Option.some.inj hbuf
    rw [at_.resolve] at resolves
    exact ⟨s, .nil s, rfl, Except.ok.inj resolves⟩
  | cons seg segs ih =>
    have hslash := List.forall_mem_cons.1 slash
    by_cases hempty : seg = []
    · subst hempty
      rw [canonicalizeDirs_empty] at h
      obtain ⟨t, paves, ht⟩ := ih at_ hslash.2 h
      exact ⟨t, .empty paves, ht⟩
    by_cases hcan : s.CanMake w.rights seg
    · rw [canonicalizeDirs_made at_ hcan] at h
      obtain ⟨t, paves, ht⟩ := ih (at_.made hcan.can) hslash.2 h
      exact ⟨t, .make hcan paves, ht⟩
    by_cases hwalks : s.Room seg ∧ ∃ n d, Walks s.fs w.rights s.links s.dir [seg, []] n d
    · obtain ⟨hroom, n, d, walks⟩ := hwalks
      rw [canonicalizeDirs_past at_ hempty hslash.1 hroom walks] at h
      obtain ⟨t, paves, ht⟩ := ih (at_.past hslash.1 walks) hslash.2 h
      exact ⟨t, .walk hempty hroom walks paves, ht⟩
    · have hstuck := canonicalizeDirs_stuck at_ hempty slash hcan
        fun hroom n d walks => hwalks ⟨hroom, n, d, walks⟩
      rw [h] at hstuck
      obtain ⟨rfl, hlost⟩ := hstuck
      exact absurd resolves (hlost buf' rfl q)

/-- A directory is made for one of the segments, the ones before it leading to its parent. -/
def Makes (w : CapWorld) (s : Place) (segs : List CStr) (p : Path) : Prop :=
  ∃ pre seg post t, segs = pre ++ seg :: post ∧ Paves w.rights s pre t ∧
    t.CanMake w.rights seg ∧ p = t.dir ++ [seg]

theorem Makes.cons (h : Makes w t segs p) (step : ∀ pre u, Paves w.rights t pre u →
    Paves w.rights s (seg :: pre) u) : Makes w s (seg :: segs) p := by
  obtain ⟨pre, c, post, u, rfl, paves, can, hp⟩ := h
  exact ⟨seg :: pre, c, post, u, rfl, step pre u paves, can, hp⟩

theorem makes_of_created (at_ : s.At w.rights buf) (slash : ∀ c ∈ segs, '/' ∉ c)
    (created : (canonicalizeDirs w segs buf s.fs).2.node p ≠ s.fs.node p) :
    Makes w s segs p := by
  induction segs generalizing s buf with
  | nil => exact absurd rfl created
  | cons seg segs ih =>
    have hslash := List.forall_mem_cons.1 slash
    by_cases hempty : seg = []
    · subst hempty
      rw [canonicalizeDirs_empty] at created
      exact (ih at_ hslash.2 created).cons fun _ _ => .empty
    by_cases hcan : s.CanMake w.rights seg
    · by_cases hp : p = s.dir ++ [seg]
      · exact ⟨[], seg, segs, s, rfl, .nil s, hcan, hp⟩
      · rw [canonicalizeDirs_made at_ hcan, ← Place.node_made_of_ne hp] at created
        exact (ih (at_.made hcan.can) hslash.2 created).cons fun _ _ => .make hcan
    by_cases hwalks : s.Room seg ∧ ∃ n d, Walks s.fs w.rights s.links s.dir [seg, []] n d
    · obtain ⟨hroom, n, d, walks⟩ := hwalks
      rw [canonicalizeDirs_past at_ hempty hslash.1 hroom walks] at created
      exact (ih (at_.past hslash.1 walks) hslash.2 created).cons
        fun _ _ => .walk hempty hroom walks
    · obtain ⟨hsame, -⟩ := canonicalizeDirs_stuck at_ hempty slash hcan
        fun hroom n d walks => hwalks ⟨hroom, n, d, walks⟩
      rw [hsame] at created
      exact absurd rfl created

theorem created_of_makes (at_ : s.At w.rights buf) (slash : ∀ c ∈ segs, '/' ∉ c)
    (makes : Makes w s segs p) :
    s.fs.node p = none ∧ (canonicalizeDirs w segs buf s.fs).2.node p = some .dir := by
  obtain ⟨pre, seg, post, t, rfl, paves, can, rfl⟩ := makes
  have hpre : ∀ c ∈ pre, '/' ∉ c := fun c hc => slash c (List.mem_append_left _ hc)
  obtain ⟨buf', hat, hsegs⟩ := canonicalizeDirs_of_paves paves at_ hpre
  constructor
  · cases hnode : s.fs.node (t.dir ++ [seg]) with
    | none => rfl
    | some n => exact absurd (can.can.new.symm.trans (paves.keeps _ _ hnode)) (by simp)
  · rw [hsegs, canonicalizeDirs_made hat can]
    exact keeps_canonicalizeDirs w post _ _ _ _ (Place.node_made hat.dir can.can)

/-- What the loop creates. -/
theorem created_iff (at_ : s.At w.rights buf) (slash : ∀ c ∈ segs, '/' ∉ c) :
    (canonicalizeDirs w segs buf s.fs).2.node p ≠ s.fs.node p ↔ Makes w s segs p := by
  refine ⟨makes_of_created at_ slash, fun makes => ?_⟩
  obtain ⟨hnone, hdir⟩ := created_of_makes at_ slash makes
  rw [hnone, hdir]
  exact fun h => by cases h

end Tesd
