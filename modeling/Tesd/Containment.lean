import Tesd.CanonicalDirs
import Tesd.NoOverwrite

/-!
# What a file name can reach

Whether the directories that canonicalizing a file name creates, and the file whose name comes out
of it, are inside the data root.  The directories are created before the check, which looks at the
beginning of the name only; the last component of the name is never resolved if the name denotes no
file.
-/

namespace Tesd

open Posix FileSystem

deriving instance DecidableEq for Canonical

/-- The path lies strictly inside the directory that `DATAROOT` denotes. -/
def Inside (fs : FileSystem) (p : Path) : Prop :=
  ∃ root, Leads fs [] (DATAROOT.splitOn '/') root ∧ root <+: p ∧ root ≠ p

/-- The segments of a file name before the last one. -/
def dirSegs (filename : CStr) : List CStr := (filename.splitOn '/').dropLast

/-- The last segment of a file name. -/
def lastSeg (filename : CStr) : CStr := (filename.splitOn '/').getLast?.getD []

/-- The name that is looked up first, as it fits into the buffer. -/
def lookedUp (filename : CStr) : CStr := (DATAROOT ++ filename).take (PATH_MAX - 1)

/-- The file name is one whose directories are created. -/
structure Creates (w : CapWorld) (filename : CStr) (mustexist : Bool) (fs : FileSystem) : Prop where
  nonempty : filename ≠ []
  ends : filename.getLast? ≠ some '/'
  missing : fs.realpath w.rights (lookedUp filename) = .error .ENOENT
  may : mustexist = false

/-- Some of the segments, with directories made where there is nothing, lead out of the data root,
and a directory is made there for the next one. -/
structure Strays (w : CapWorld) (filename : CStr) (mustexist : Bool) (fs : FileSystem) :
    Prop where
  creates : Creates w filename mustexist fs
  outside : ∃ (s t : Place) (pre post : List CStr) (seg : CStr), s.At w.rights DATAROOT ∧ s.fs = fs ∧
    dirSegs filename = pre ++ seg :: post ∧ Paves w.rights s pre t ∧ t.CanMake w.rights seg ∧
    ¬ s.dir <+: t.dir

section Segments

variable {filename : CStr}

theorem slash_notMem_dirSegs : ∀ c ∈ dirSegs filename, '/' ∉ c :=
  fun _ hc => splitOn_slash (List.dropLast_subset _ hc)

theorem dirSegs_append_lastSeg : dirSegs filename ++ [lastSeg filename] = filename.splitOn '/' := by
  have hne := List.splitOn_ne_nil '/' filename
  rw [dirSegs, lastSeg, List.getLast?_eq_some_getLast hne, Option.getD_some,
    List.dropLast_append_getLast hne]

theorem slash_notMem_lastSeg : '/' ∉ lastSeg filename := slash_notMem_segment filename

theorem dirSegs_plain (slash : '/' ∉ filename) : dirSegs filename = [] ∧ lastSeg filename = filename := by
  simp [dirSegs, lastSeg, List.splitOn_eq_singleton slash]

/-- The last segment of a name that does not end with a slash. -/
theorem lastSeg_ne_nil (nonempty : filename ≠ []) (ends : filename.getLast? ≠ some '/') :
    lastSeg filename ≠ [] := by
  by_cases hmem : '/' ∈ filename
  · obtain ⟨b, a, hreverse, hb⟩ := List.eq_append_cons_of_mem (List.mem_reverse.2 hmem)
    obtain rfl : filename = a.reverse ++ '/' :: b.reverse := by
      rw [← List.reverse_reverse filename, hreverse]
      simp
    have hlast : lastSeg (a.reverse ++ '/' :: b.reverse) = b.reverse := by
      rw [lastSeg, List.splitOn_append_cons_self,
        List.splitOn_eq_singleton fun h => hb (List.mem_reverse.1 h), List.getLast?_concat,
        Option.getD_some]
    rw [hlast]
    intro hnil
    rw [hnil] at ends
    exact ends (by simp)
  · rw [lastSeg, List.splitOn_eq_singleton hmem]
    exact nonempty

end Segments

/-! ## The tree that canonicalizing leaves -/

section Tree

variable {w : CapWorld} {filename : CStr} {mustexist : Bool} {fs fs' : FileSystem} {p : Path}

theorem canonicalizePath_of_creates (creates : Creates w filename mustexist fs) :
    canonicalizePath w filename mustexist fs =
      match canonicalizeDirs w (dirSegs filename) DATAROOT fs with
      | (none, fs) => (.null, fs)
      | (some buf, fs) =>
        match fs.realpath w.rights buf with
        | .error _ => (.abort, fs)
        | .ok s =>
          if (lastSeg filename).length + s.length ≥ PATH_MAX then (.null, fs)
          else (insideRoot ((s ++ '/' :: lastSeg filename).take (PATH_MAX - 1)), fs) := by
  have hmissing := creates.missing
  have hseg := lastSeg_ne_nil creates.nonempty creates.ends
  rw [lookedUp] at hmissing
  rw [lastSeg] at hseg
  rw [canonicalizePath, if_neg creates.nonempty, if_neg creates.ends, hmissing]
  dsimp only
  rw [if_neg (by simp [creates.may]), if_neg (by simp), dirSegs, lastSeg]
  rcases canonicalizeDirs w (filename.splitOn '/').dropLast DATAROOT fs with ⟨_ | buf, fs'⟩
  · rfl
  · dsimp only
    rcases fs'.realpath w.rights buf with e | s
    · rfl
    · dsimp only
      rw [if_neg hseg]

/-- A name whose directories are not created is refused, or is that of an existing file. -/
theorem canonicalizePath_of_not_creates (creates : ¬ Creates w filename mustexist fs) :
    canonicalizePath w filename mustexist fs = (.null, fs) ∨
      filename.getLast? ≠ some '/' ∧ ∃ s, fs.realpath w.rights (lookedUp filename) = .ok s ∧
        canonicalizePath w filename mustexist fs = (insideRoot s, fs) := by
  unfold canonicalizePath
  by_cases hnonempty : filename = []
  · rw [if_pos hnonempty]
    exact Or.inl rfl
  rw [if_neg hnonempty]
  by_cases hends : filename.getLast? = some '/'
  · rw [if_pos hends]
    exact Or.inl rfl
  rw [if_neg hends, ← lookedUp]
  cases hpath : fs.realpath w.rights (lookedUp filename) with
  | ok s => exact Or.inr ⟨hends, s, rfl, rfl⟩
  | error e =>
    left
    by_cases hmay : mustexist = true
    · exact if_pos hmay
    by_cases he : e ≠ .ENOENT
    · exact (if_neg hmay).trans (if_pos he)
    · rw [ne_eq, not_not] at he
      subst he
      exact absurd ⟨hnonempty, hends, hpath, by simpa using hmay⟩ creates

theorem canonicalizePath_tree (creates : Creates w filename mustexist fs) :
    (canonicalizePath w filename mustexist fs).2 =
      (canonicalizeDirs w (dirSegs filename) DATAROOT fs).2 := by
  rw [canonicalizePath_of_creates creates]
  rcases canonicalizeDirs w (dirSegs filename) DATAROOT fs with ⟨_ | buf, fs'⟩
  · rfl
  · dsimp only
    split
    · rfl
    · split_ifs <;> rfl

theorem canonicalizePath_same (creates : ¬ Creates w filename mustexist fs) :
    (canonicalizePath w filename mustexist fs).2 = fs := by
  rcases canonicalizePath_of_not_creates creates with h | ⟨-, s, -, h⟩
  · rw [h]
  · rw [h]

/-- The data root is a directory, or creating directories below it is in vain. -/
theorem at_or_lost (w : CapWorld) (fs : FileSystem) :
    (∃ s : Place, s.At w.rights DATAROOT ∧ s.fs = fs) ∨
      ∀ q, fs.resolve w.rights DATAROOT ≠ .ok q := by
  by_cases h : ∃ q, fs.resolve w.rights DATAROOT = .ok q
  · obtain ⟨q, hq⟩ := h
    obtain ⟨m, walks⟩ := walk_eq_ok_iff.1 hq
    exact Or.inl ⟨⟨DATAROOT.length, m, q, fs⟩, ⟨rfl, dataroot_slash, walks⟩, rfl⟩
  · exact Or.inr (not_exists.1 h)

theorem inside_dataroot_iff {s : Place} (at_ : s.At w.rights DATAROOT) :
    Inside s.fs p ↔ s.dir <+: p ∧ s.dir ≠ p := by
  constructor
  · rintro ⟨root, leads, hinside⟩
    rwa [(leads_of_walks at_.walks).unique leads] at hinside
  · exact fun h => ⟨s.dir, leads_of_walks at_.walks, h⟩

/-- All directories that are created lie inside the data root, unless one is made for a segment
after the ones before it have led out of the data root. -/
theorem creates_inside_iff : (∀ p, fs.node p ≠ some .dir →
      (canonicalizePath w filename mustexist fs).2.node p = some .dir → Inside fs p) ↔
    ¬ Strays w filename mustexist fs := by
  constructor
  · rintro inside ⟨creates, s, t, pre, post, seg, at_, rfl, hsegs, paves, can, hout⟩
    have makes : Makes w s (dirSegs filename) (t.dir ++ [seg]) :=
      ⟨pre, seg, post, t, hsegs, paves, can, rfl⟩
    obtain ⟨hnone, hdir⟩ := created_of_makes at_ slash_notMem_dirSegs makes
    rw [← canonicalizePath_tree creates] at hdir
    obtain ⟨hpre, hne⟩ := (inside_dataroot_iff at_).1 (inside _ (by simp [hnone]) hdir)
    rcases List.prefix_concat_iff.1 hpre with heq | hpre
    · exact hne heq
    · exact hout hpre
  · intro safe p hold hnew
    have hchanged : (canonicalizePath w filename mustexist fs).2.node p ≠ fs.node p := by
      rw [hnew]
      exact hold.symm
    by_cases hcreates : Creates w filename mustexist fs
    · rw [canonicalizePath_tree hcreates] at hchanged
      rcases at_or_lost w fs with ⟨s, at_, rfl⟩ | lost
      · obtain ⟨pre, seg, post, t, hsegs, paves, can, rfl⟩ :=
          makes_of_created at_ slash_notMem_dirSegs hchanged
        have hpre : s.dir <+: t.dir := by
          by_contra hout
          exact safe ⟨hcreates, s, t, pre, post, seg, at_, rfl, hsegs, paves, can, hout⟩
        refine (inside_dataroot_iff at_).2 ⟨hpre.trans (List.prefix_append _ _), ?_⟩
        intro heq
        have hlen := hpre.length_le
        rw [heq, List.length_append, List.length_singleton] at hlen
        omega
      · rcases canonicalizeDirs_of_lost lost dataroot_slash slash_notMem_dirSegs with h | h
        · rw [h] at hchanged
          exact absurd rfl hchanged
        · rw [h] at hchanged
          exact absurd rfl hchanged
    · rw [canonicalizePath_same hcreates] at hchanged
      exact absurd rfl hchanged

end Tree

/-- The data root, as it is without symbolic links. -/
def rootPath : Path := ["media".toList, "data".toList, "captures".toList]

/-- A directory is created next to the data root, for a name that starts with `..`. -/
theorem not_creates_inside : ¬ ∀ (w : CapWorld) (filename : CStr) (mustexist : Bool)
    (fs : FileSystem) (p : Path), fs.node p ≠ some .dir →
      (canonicalizePath w filename mustexist fs).2.node p = some .dir → Inside fs p := by
  intro h
  have hroot : (oneFile "a".toList []).resolve everyRight DATAROOT = .ok rootPath := by
    decide +kernel
  obtain ⟨root, leads, hpre, -⟩ := h fineWorld "../x/y".toList false (oneFile "a".toList [])
    ["media".toList, "data".toList, "x".toList] (by decide +kernel) (by decide +kernel)
  rw [(leads_of_resolve hroot).unique leads] at hpre
  revert hpre
  decide

end Tesd
