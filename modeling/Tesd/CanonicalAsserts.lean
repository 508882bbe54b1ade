import Tesd.Containment

/-!
# The assertions of `s_canonicalize_path`

The assertions about the running length hold whatever the file name is.  The one about `realpath`
fails if the last of the directories, which `mkdir` says exists, is not a directory, or if its name
is too long.
-/

namespace Tesd

open Posix FileSystem

/-- The directories of the file name are created, and the assertion about `realpath` fails after
that: there is no data root, or something else is in the way of the last directory, or the name of
the last directory is too long. -/
inductive Aborts (w : CapWorld) (filename : CStr) (mustexist : Bool) (fs : FileSystem) : Prop
  | noRoot (creates : Creates w filename mustexist fs)
      (lost : ∀ q, fs.resolve w.rights DATAROOT ≠ .ok q) (flat : ∀ c ∈ dirSegs filename, c = [])
  | blocked {s t : Place} {pre post : List CStr} {seg : CStr}
      (creates : Creates w filename mustexist fs) (at_ : s.At w.rights DATAROOT) (tree : s.fs = fs)
      (segs : dirSegs filename = pre ++ seg :: post) (paves : Paves w.rights s pre t)
      (blocks : t.Blocks w.rights seg) (flat : ∀ c ∈ post, c = [])
  | long {s t : Place} (creates : Creates w filename mustexist fs)
      (at_ : s.At w.rights DATAROOT) (tree : s.fs = fs)
      (paves : Paves w.rights s (dirSegs filename) t) (long : (render t.dir).length ≥ PATH_MAX)

/-! ## The loop as it is written -/

/-- `strchr` for a slash. -/
def strchrSlash : CStr → Option ℕ
  | [] => none
  | c :: s => if c = '/' then some 0 else (strchrSlash s).map (· + 1)

theorem strchrSlash_eq_none {s : CStr} : strchrSlash s = none ↔ '/' ∉ s := by
  induction s with
  | nil => simp [strchrSlash]
  | cons c s ih =>
    by_cases hc : c = '/'
    · simp [strchrSlash, hc]
    · simp [strchrSlash, hc, ih, Ne.symm hc]

/-- The slash that is found ends the first segment. -/
theorem strchrSlash_eq_some {s : CStr} {i : ℕ} (h : strchrSlash s = some i) :
    ∃ seg rest, s = seg ++ '/' :: rest ∧ '/' ∉ seg ∧ i = seg.length := by
  induction s generalizing i with
  | nil => cases h
  | cons c s ih =>
    rw [strchrSlash] at h
    split_ifs at h with hc
    · obtain rfl := Option.some.inj h
      exact ⟨[], s, by rw [hc, List.nil_append], List.not_mem_nil, rfl⟩
    · obtain ⟨j, hj, rfl⟩ := Option.map_eq_some_iff.1 h
      obtain ⟨seg, rest, rfl, hseg, rfl⟩ := ih hj
      exact ⟨c :: seg, rest, rfl, by simp [hseg, Ne.symm hc], rfl⟩

/-- How the loop ends: with what is left of the file name, the length and the buffer, or with the
return or the failed assertion in its body. -/
inductive LoopEnd
  | done (curSeg : CStr) (len : ℕ) (buf : CStr)
  | null
  | abort

/-- The loop of `s_canonicalize_path` over the characters of the file name, with the running length
and the assertions. -/
def dirLoop (w : CapWorld) (curSeg : CStr) (len : ℕ) (buf : CStr) (fs : FileSystem) :
    LoopEnd × FileSystem :=
  match _h : strchrSlash curSeg with
  | none => (.done curSeg len buf, fs)
  | some nextSeg =>
    -- multiple consecutive slashes
    if nextSeg = 0 then dirLoop w (curSeg.drop 1) len buf fs
    else if ¬ len < PATH_MAX then (.abort, fs)
    else
      let thislen := nextSeg + 1
      if len + thislen ≥ PATH_MAX then (.null, fs)
      else
        let buf := buf.take len ++ curSeg.take thislen
        let len := len + thislen
        if len ≠ buf.length then (.abort, fs)
        else
          match fs.mkdir w.rights buf with
          | (.error .EEXIST, fs) => dirLoop w (curSeg.drop thislen) len buf fs
          | (.error _, fs) => (.null, fs)
          | (.ok _, fs) => dirLoop w (curSeg.drop thislen) len buf fs
termination_by curSeg.length
decreasing_by
  all_goals
    obtain ⟨seg, rest, rfl, -, rfl⟩ := strchrSlash_eq_some ‹_›
    simp only [List.length_drop, List.length_append, List.length_cons]
    omega

/-- `s_canonicalize_path` with all its assertions. -/
def canonicalizePathAsserts (w : CapWorld) (filename : CStr) (mustexist : Bool) (fs : FileSystem) :
    Canonical × FileSystem :=
  if filename = [] then (.null, fs)
  else if filename.getLast? = some '/' then (.null, fs)
  else
    match fs.realpath w.rights ((DATAROOT ++ filename).take (PATH_MAX - 1)) with
    | .ok s => (insideRoot s, fs)
    | .error e =>
      if mustexist then (.null, fs)
      else if e ≠ .ENOENT then (.null, fs)
      else
        match dirLoop w filename DATAROOT.length DATAROOT fs with
        | (.null, fs) => (.null, fs)
        | (.abort, fs) => (.abort, fs)
        | (.done curSeg _ buf, fs) =>
          match fs.realpath w.rights buf with
          | .error _ => (.abort, fs)
          | .ok s =>
            if curSeg.length = 0 then (.abort, fs)
            else if curSeg.length + s.length ≥ PATH_MAX then (.null, fs)
            else (insideRoot ((s ++ '/' :: curSeg).take (PATH_MAX - 1)), fs)

section Loop

variable {w : CapWorld} {fs : FileSystem} {curSeg seg rest buf : CStr}

theorem segments_cons (slash : '/' ∉ seg) :
    dirSegs (seg ++ '/' :: rest) = seg :: dirSegs rest ∧
      lastSeg (seg ++ '/' :: rest) = lastSeg rest := by
  have hne := List.splitOn_ne_nil '/' rest
  have hsplit : (seg ++ '/' :: rest).splitOn '/' = seg :: rest.splitOn '/' := by
    rw [List.splitOn_append_cons_self, List.splitOn_eq_singleton slash, List.singleton_append]
  rw [dirSegs, lastSeg, hsplit, List.dropLast_cons_of_ne_nil hne]
  refine ⟨rfl, ?_⟩
  rw [List.getLast?_cons, lastSeg, List.getLast?_eq_some_getLast hne]
  rfl

/-- No assertion of the loop fails: the running length is that of the buffer. -/
theorem dirLoop_eq (w : CapWorld) (curSeg buf : CStr) (fs : FileSystem)
    (short : buf.length < PATH_MAX) : dirLoop w curSeg buf.length buf fs =
      match canonicalizeDirs w (dirSegs curSeg) buf fs with
      | (none, fs) => (.null, fs)
      | (some buf, fs) => (.done (lastSeg curSeg) buf.length buf, fs) := by
  obtain ⟨n, hn⟩ : ∃ n, curSeg.length = n := ⟨_, rfl⟩
  induction n using Nat.strongRecOn generalizing curSeg buf fs with
  | ind n ih =>
    rw [dirLoop]
    split
    next h =>
      obtain ⟨hdirs, hlast⟩ := dirSegs_plain (strchrSlash_eq_none.1 h)
      rw [hdirs, hlast, canonicalizeDirs]
    next nextSeg h =>
      obtain ⟨seg, rest, rfl, hslash, rfl⟩ := strchrSlash_eq_some h
      obtain ⟨hdirs, hlast⟩ : dirSegs (seg ++ '/' :: rest) = seg :: dirSegs rest ∧ _ :=
        segments_cons hslash
      have hrest : rest.length < n := by
        rw [← hn, List.length_append, List.length_cons]
        omega
      rw [hdirs, hlast]
      by_cases hempty : seg = []
      · subst hempty
        rw [if_pos List.length_nil, List.nil_append, List.drop_one, List.tail_cons,
          canonicalizeDirs_empty]
        exact ih _ hrest rest buf fs short rfl
      rw [if_neg (fun hlen => hempty (List.length_eq_zero_iff.1 hlen)), if_neg (not_not.2 short)]
      dsimp only
      by_cases hroom : buf.length + (seg.length + 1) < PATH_MAX
      · -- what is copied is the segment and its slash
        have hbuf : buf.take buf.length ++ (seg ++ '/' :: rest).take (seg.length + 1) =
            buf ++ seg ++ ['/'] := by
          rw [List.take_length, List.take_length_add_append, List.append_assoc]
          rfl
        have hlen : buf.length + (seg.length + 1) = (buf ++ seg ++ ['/']).length := by
          simp
        have hdrop : (seg ++ '/' :: rest).drop (seg.length + 1) = rest := by
          rw [List.drop_length_add_append]
          rfl
        rw [if_neg (Nat.not_le.2 hroom), hbuf, hlen, if_neg (not_not.2 rfl), hdrop,
          canonicalizeDirs_cons w fs _ hempty hroom]
        have hnext := fun fs => ih _ hrest rest (buf ++ seg ++ ['/']) fs (hlen ▸ hroom) rfl
        rcases fs.mkdir w.rights (buf ++ seg ++ ['/']) with ⟨e | p, fs'⟩
        · cases e <;> first | exact hnext fs' | rfl
        · exact hnext fs'
      · rw [if_pos (Nat.not_lt.1 hroom), canonicalizeDirs, if_neg hempty,
          if_pos (Nat.not_lt.1 hroom)]

/-- The assertions in the loop change nothing. -/
theorem canonicalizePathAsserts_eq (w : CapWorld) (filename : CStr) (mustexist : Bool)
    (fs : FileSystem) : canonicalizePathAsserts w filename mustexist fs =
      canonicalizePath w filename mustexist fs := by
  have hloop := dirLoop_eq w filename DATAROOT fs (by decide)
  unfold canonicalizePathAsserts canonicalizePath
  rw [hloop, dirSegs, lastSeg]
  simp only [List.length_eq_zero_iff]
  rcases canonicalizeDirs w (filename.splitOn '/').dropLast DATAROOT fs with ⟨_ | buf, fs'⟩ <;> rfl

end Loop

/-! ## Where the loop gets to -/

section Lost

variable {w : CapWorld} {fs fs' : FileSystem} {segs : List CStr} {buf buf' : CStr} {s : Place}
  {filename : CStr} {mustexist : Bool}

theorem canonicalizeDirs_flat (w : CapWorld) (buf : CStr) (fs : FileSystem)
    (flat : ∀ c ∈ segs, c = []) : canonicalizeDirs w segs buf fs = (some buf, fs) := by
  induction segs with
  | nil => rfl
  | cons seg segs ih =>
    rw [List.forall_mem_cons] at flat
    obtain ⟨rfl, flat⟩ := flat
    rw [canonicalizeDirs_empty]
    exact ih flat

/-- Below a name that leads nowhere, the loop only gets past empty segments. -/
theorem flat_of_lost (lost : ∀ q, fs.resolve w.rights buf ≠ .ok q) (ends : ∃ x, buf = x ++ ['/'])
    (slash : ∀ seg ∈ segs, '/' ∉ seg) (h : canonicalizeDirs w segs buf fs = (some buf', fs')) :
    ∀ c ∈ segs, c = [] := by
  induction segs with
  | nil => exact fun c hc => absurd hc List.not_mem_nil
  | cons seg segs ih =>
    rw [List.forall_mem_cons] at slash ⊢
    by_cases hempty : seg = []
    · subst hempty
      rw [canonicalizeDirs_empty] at h
      exact ⟨rfl, ih slash.2 h⟩
    by_cases hroom : buf.length + (seg.length + 1) < PATH_MAX
    · obtain ⟨e, hmkdir, he⟩ := mkdir_of_lost lost ends hempty slash.1
      rw [canonicalizeDirs_cons w fs segs hempty hroom, hmkdir] at h
      cases e with
      | EEXIST => exact absurd rfl he
      | _ => cases h
    · rw [canonicalizeDirs, if_neg hempty, if_pos (Nat.not_lt.1 hroom)] at h
      cases h

/-- Where the loop gets to the end of the name and that leads nowhere, something is in the way of
the last directory. -/
theorem blocked_of_lost (at_ : s.At w.rights buf) (slash : ∀ c ∈ segs, '/' ∉ c)
    (h : canonicalizeDirs w segs buf s.fs = (some buf', fs'))
    (lost : ∀ q, fs'.resolve w.rights buf' ≠ .ok q) :
    ∃ pre seg post t, segs = pre ++ seg :: post ∧ Paves w.rights s pre t ∧
      t.Blocks w.rights seg ∧ ∀ c ∈ post, c = [] := by
  induction segs generalizing s buf with
  | nil =>
    obtain ⟨hbuf, rfl⟩ := Prod.mk.inj h
    obtain rfl := Option.some.inj hbuf
    exact absurd at_.resolve (lost s.dir)
  | cons seg segs ih =>
    have hslash := List.forall_mem_cons.1 slash
    by_cases hempty : seg = []
    · subst hempty
      rw [canonicalizeDirs_empty] at h
      obtain ⟨pre, c, post, t, rfl, paves, hrest⟩ := ih at_ hslash.2 h
      exact ⟨[] :: pre, c, post, t, rfl, .empty paves, hrest⟩
    by_cases hcan : s.CanMake w.rights seg
    · rw [canonicalizeDirs_made at_ hcan] at h
      obtain ⟨pre, c, post, t, rfl, paves, hrest⟩ := ih (at_.made hcan.can) hslash.2 h
      exact ⟨seg :: pre, c, post, t, rfl, .make hcan paves, hrest⟩
    by_cases hroom : s.Room seg
    swap
    · rw [Place.Room, at_.len] at hroom
      rw [canonicalizeDirs, if_neg hempty, if_pos (Nat.not_lt.1 hroom)] at h
      cases h
    by_cases hwalks : ∃ n d, Walks s.fs w.rights s.links s.dir [seg, []] n d
    · obtain ⟨n, d, walks⟩ := hwalks
      rw [canonicalizeDirs_past at_ hempty hslash.1 hroom walks] at h
      obtain ⟨pre, c, post, t, rfl, paves, hrest⟩ := ih (at_.past hslash.1 walks) hslash.2 h
      exact ⟨seg :: pre, c, post, t, rfl, .walk hempty hroom walks paves, hrest⟩
    · -- the directory can not be made here, and is not here
      have hnowalk : ∀ n d, ¬ Walks s.fs w.rights s.links s.dir [seg, []] n d :=
        fun n d walks => hwalks ⟨n, d, walks⟩
      have hchild : ∀ q, s.fs.resolve w.rights (buf ++ seg ++ ['/']) ≠ .ok q := by
        intro q hq
        obtain ⟨n, walks⟩ := (at_.resolve_child hslash.1).1 hq
        exact hnowalk n q walks
      obtain ⟨e, hmkdir⟩ := at_.mkdir_of_not_canCreate hempty hslash.1
        fun can => hcan ⟨hroom, can⟩
      rw [canonicalizeDirs_cons w s.fs segs hempty (at_.len ▸ hroom), hmkdir] at h
      cases e with
      | EEXIST =>
        have blocks := at_.blocks_of_mkdir hempty hslash.1 hroom hnowalk (by rw [hmkdir])
        exact ⟨[], seg, segs, s, rfl, .nil s, blocks,
          flat_of_lost hchild ⟨_, rfl⟩ hslash.2 h⟩
      | _ => cases h

/-- When the directory part is not found after the loop. -/
theorem abort_iff : (canonicalizePath w filename mustexist fs).1 = .abort ↔
    Creates w filename mustexist fs ∧ ∃ buf fs' err,
      canonicalizeDirs w (dirSegs filename) DATAROOT fs = (some buf, fs') ∧
      fs'.realpath w.rights buf = .error err := by
  have hinside : ∀ s, insideRoot s ≠ .abort := by
    intro s
    unfold insideRoot
    split_ifs <;> exact fun h => by cases h
  by_cases creates : Creates w filename mustexist fs
  · rw [and_iff_right creates, canonicalizePath_of_creates creates]
    rcases canonicalizeDirs w (dirSegs filename) DATAROOT fs with ⟨_ | buf, fs'⟩
    · simp
    · cases hpath : fs'.realpath w.rights buf with
      | error err => simp [hpath]
      | ok s =>
        simp only [hpath]
        split_ifs <;> simp [hinside, hpath]
  · refine iff_of_false ?_ fun h => creates h.1
    rcases canonicalizePath_of_not_creates creates with h | ⟨-, s, -, h⟩
    · rw [h]
      exact fun h => by cases h
    · rw [h]
      exact hinside s

theorem aborts_of_abort (h : (canonicalizePath w filename mustexist fs).1 = .abort) :
    Aborts w filename mustexist fs := by
  obtain ⟨creates, buf, fs', err, hdirs, hpath⟩ := abort_iff.1 h
  rcases at_or_lost w fs with ⟨s, at_, rfl⟩ | lost
  · by_cases hfound : ∃ q, fs'.resolve w.rights buf = .ok q
    · obtain ⟨q, hq⟩ := hfound
      obtain ⟨t, paves, rfl, rfl⟩ := paves_of_canonicalizeDirs at_ slash_notMem_dirSegs hdirs hq
      refine .long creates at_ rfl paves ?_
      by_contra hshort
      rw [realpath, hq] at hpath
      dsimp only at hpath
      rw [if_neg hshort] at hpath
      cases hpath
    · obtain ⟨pre, seg, post, t, hsegs, paves, blocks, flat⟩ :=
        blocked_of_lost at_ slash_notMem_dirSegs hdirs (not_exists.1 hfound)
      exact .blocked creates at_ rfl hsegs paves blocks flat
  · exact .noRoot creates lost (flat_of_lost lost dataroot_slash slash_notMem_dirSegs hdirs)

theorem realpath_of_lost {x : CStr} (lost : ∀ q, fs.resolve w.rights x ≠ .ok q) :
    ∃ err, fs.realpath w.rights x = .error err := by
  cases hresolve : fs.resolve w.rights x with
  | error err => exact ⟨err, by rw [realpath, hresolve]⟩
  | ok q => exact absurd hresolve (lost q)

theorem abort_of_aborts (h : Aborts w filename mustexist fs) :
    (canonicalizePath w filename mustexist fs).1 = .abort := by
  rw [abort_iff]
  cases h with
  | noRoot creates lost flat =>
    obtain ⟨err, hpath⟩ := realpath_of_lost lost
    exact ⟨creates, DATAROOT, fs, err, canonicalizeDirs_flat w DATAROOT fs flat, hpath⟩
  | @blocked s t pre post seg creates at_ tree segs paves blocks flat =>
    subst tree
    have hslash : ∀ c ∈ dirSegs filename, '/' ∉ c := slash_notMem_dirSegs
    rw [segs] at hslash
    obtain ⟨buf, hat, hrest⟩ := canonicalizeDirs_of_paves paves at_
      fun c hc => hslash c (List.mem_append_left _ hc)
    have hseg : '/' ∉ seg := hslash seg (by simp)
    have hempty : seg ≠ [] := by
      obtain ⟨n, there⟩ := Option.ne_none_iff_exists'.1 blocks.there
      exact (t.fs.legal t.dir seg n there).nonempty
    have hlost : ∀ q, t.fs.resolve w.rights (buf ++ seg ++ ['/']) ≠ .ok q := by
      intro q hq
      obtain ⟨n, walks⟩ := (hat.resolve_child hseg).1 hq
      exact blocks.lost n q walks
    obtain ⟨err, hpath⟩ := realpath_of_lost hlost
    refine ⟨creates, buf ++ seg ++ ['/'], t.fs, err, ?_, hpath⟩
    rw [segs, hrest, canonicalizeDirs_cons w t.fs post hempty (hat.len ▸ blocks.room),
      hat.mkdir_of_blocks blocks]
    exact canonicalizeDirs_flat w _ _ flat
  | @long s t creates at_ tree paves long =>
    subst tree
    obtain ⟨buf, hat, hrest⟩ := canonicalizeDirs_of_paves paves at_ slash_notMem_dirSegs
    have hdirs := hrest []
    rw [List.append_nil, canonicalizeDirs] at hdirs
    refine ⟨creates, buf, t.fs, .ENAMETOOLONG, hdirs, ?_⟩
    rw [realpath, hat.resolve]
    exact if_pos long

/-- No assertion of `s_canonicalize_path` fails, unless directories are created for the file name
and the last of them is not there after that. -/
theorem canonicalize_asserts_iff (w : CapWorld) (filename : CStr) (mustexist : Bool)
    (fs : FileSystem) : (canonicalizePathAsserts w filename mustexist fs).1 ≠ .abort ↔
      ¬ Aborts w filename mustexist fs := by
  rw [canonicalizePathAsserts_eq]
  exact not_congr ⟨aborts_of_abort, abort_of_aborts⟩

/-- A regular file is in the way, which is found only once the directory before it is made. -/
theorem not_canonicalize_asserts : ¬ ∀ (w : CapWorld) (filename : CStr) (mustexist : Bool)
    (fs : FileSystem), (canonicalizePathAsserts w filename mustexist fs).1 ≠ .abort := by
  intro h
  have habort : (canonicalizePath fineWorld "missing/../f/x".toList false
      (oneFile "f".toList [])).1 = .abort := by
    decide +kernel
  rw [← canonicalizePathAsserts_eq] at habort
  exact h fineWorld "missing/../f/x".toList false (oneFile "f".toList []) habort

end Lost

end Tesd
