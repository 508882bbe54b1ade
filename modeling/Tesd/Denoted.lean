import Tesd.Containment
import Tesd.Lib.PathEntries

/-!
# The file that a canonical name denotes

What a file name canonicalizes to is the name of a file under the data root, the one that the file
name denotes there.  For a file that exists, this is so unless the name had to be cut to be looked
up.  For a new file the last segment is attached to the name of its directory as it is, and nothing
is known about it: it can be `..`, or a symbolic link that leads elsewhere.
-/

namespace Tesd

open Posix FileSystem

/-- The path that a path name denotes; there need not be anything yet. -/
def Denotes (fs : FileSystem) (s : CStr) (p : Path) : Prop := Leads fs [] (s.splitOn '/') p

/-- The name denotes a file inside the data root, the one that the file name denotes there. -/
structure Contained (fs : FileSystem) (filename s : CStr) : Prop where
  inside : ∀ p, Denotes fs s p → Inside fs p
  same : ∀ p, Denotes fs s p ↔ Denotes fs (DATAROOT ++ filename) p

/-- The path lies strictly under that of the data root. -/
def Under (p : Path) : Prop := rootPath <+: p ∧ rootPath ≠ p

/-- From a directory in the data root, a name leads out of it. -/
inductive Escapes (fs : FileSystem) (d : Path) : Name → Prop
  | dot (root : d = rootPath) : Escapes fs d ['.']
  | up (out : ¬ Under d.dropLast) : Escapes fs d ['.', '.']
  | link {c : Name} {target : List Char} {p : Path}
      (there : fs.node (d ++ [c]) = some (.symlink target)) (nonempty : target ≠ [])
      (leads : Leads fs (linkStart d target) (target.splitOn '/') p) (out : ¬ Under p) :
      Escapes fs d c

/-- What of the last segment fits into the buffer, after the name of the directory and a slash. -/
def fitting (filename : CStr) (d : Path) : CStr :=
  if (lastSeg filename).length + (spell d).length + 1 = PATH_MAX then (lastSeg filename).dropLast
  else lastSeg filename

/-- The name is longer than the buffer, and what is left of it denotes a file in the data root, but
another one. -/
structure LooksUpOther (w : CapWorld) (filename : CStr) (fs : FileSystem) : Prop where
  ends : filename.getLast? ≠ some '/'
  long : PATH_MAX ≤ (DATAROOT ++ filename).length
  found : ∃ p, fs.resolve w.rights (lookedUp filename) = .ok p ∧ (spell p).length < PATH_MAX ∧
    Under p ∧ ¬ Denotes fs (DATAROOT ++ filename) p

/-- The directory of a new file is in the data root, but from there the last segment leads out, or
what fits of it leads elsewhere. -/
structure AttachesOther (w : CapWorld) (filename : CStr) (mustexist : Bool) (fs : FileSystem) :
    Prop where
  creates : Creates w filename mustexist fs
  last : ∃ s t : Place, s.At w.rights DATAROOT ∧ s.fs = fs ∧
    Paves w.rights s (dirSegs filename) t ∧ rootPath <+: t.dir ∧
    (lastSeg filename).length + (spell t.dir).length < PATH_MAX ∧
    (Escapes t.fs t.dir (lastSeg filename) ∨
      ¬ ∀ p, Leads t.fs t.dir [fitting filename t.dir] p ↔ Leads t.fs t.dir [lastSeg filename] p)

variable {w : CapWorld} {filename : CStr} {mustexist : Bool} {fs fs' : FileSystem} {d p q : Path}
  {c f s s' : CStr}

/-! ## The name of the data root -/

theorem dataroot_eq : DATAROOT = spell rootPath ++ ['/'] := rfl

theorem dataroot_append (f : CStr) : DATAROOT ++ f = spell (rootPath ++ [f]) := by
  rw [dataroot_eq, spell_concat, List.append_assoc, List.singleton_append]

theorem slash_notMem_rootPath : ∀ c ∈ rootPath, '/' ∉ c := by decide

/-- The names on the way to a file in the data root. -/
theorem splitOn_dataroot_append (f : CStr) :
    (DATAROOT ++ f).splitOn '/' = [] :: (rootPath ++ f.splitOn '/') := by
  rw [dataroot_eq, List.append_assoc, List.singleton_append, List.splitOn_append_cons_self,
    splitOn_spell slash_notMem_rootPath, List.cons_append]

theorem splitOn_dataroot (h : '/' ∉ f) : (DATAROOT ++ f).splitOn '/' = [] :: (rootPath ++ [f]) := by
  rw [splitOn_dataroot_append, List.splitOn_eq_singleton h]

/-- A directory's own name. -/
theorem resolve_dataroot (real : fs.Real w.rights rootPath) (isDir : fs.node rootPath = some .dir) :
    fs.resolve w.rights DATAROOT = .ok rootPath := by
  have hwalk : fs.walk w.rights SYMLOOP_MAX [] (rootPath ++ [[]]) =
      fs.walk w.rights SYMLOOP_MAX rootPath [[]] := walk_real_append real isDir
  have hsplit := splitOn_dataroot (f := []) List.not_mem_nil
  rw [List.append_nil] at hsplit
  rw [resolve, hsplit, walk_cons, if_neg (not_not.2 fs.root), if_pos rfl, hwalk, walk_cons,
    if_neg (not_not.2 isDir), if_pos rfl]
  rfl

/-- The names that begin with that of the data root. -/
theorem insideRoot_spell_iff (names : ∀ x ∈ d ++ [c], '/' ∉ x) :
    insideRoot (spell (d ++ [c])) = .path s ↔ rootPath <+: d ∧ s = spell (d ++ [c]) := by
  have hroot : DATAROOT.isPrefixOf (spell (d ++ [c])) = true ↔ rootPath <+: d := by
    rw [List.isPrefixOf_iff_prefix]
    constructor
    · rintro ⟨r, hr⟩
      have hsplit := splitOn_spell names
      rw [← hr, splitOn_dataroot_append, List.cons_inj_right] at hsplit
      have hpre : rootPath <+: d ++ [c] := ⟨_, hsplit⟩
      rcases List.prefix_concat_iff.1 hpre with heq | hpre
      · rw [← heq, List.append_right_eq_self] at hsplit
        exact absurd hsplit (List.splitOn_ne_nil '/' r)
      · exact hpre
    · rintro ⟨r, rfl⟩
      rw [List.append_assoc, spell_append, dataroot_eq]
      obtain ⟨x, xs, hx⟩ := List.exists_cons_of_ne_nil
        (List.append_ne_nil_of_right_ne_nil r (List.cons_ne_nil c []))
      rw [List.prefix_append_right_inj, hx]
      exact ⟨x ++ spell xs, rfl⟩
  constructor
  · intro h
    obtain ⟨hs, hprefix⟩ := eq_of_insideRoot h
    exact ⟨hroot.1 hprefix, hs⟩
  · rintro ⟨pre, rfl⟩
    exact if_pos (hroot.2 pre)

theorem Under.render (under : Under p) : render p = spell p := by
  apply if_neg
  rintro rfl
  exact under.2 (List.prefix_nil.1 under.1)

theorem under_concat_iff : Under (d ++ [c]) ↔ rootPath <+: d := by
  constructor
  · exact fun under => (List.prefix_concat_iff.1 under.1).resolve_left under.2
  · intro pre
    refine ⟨pre.trans (List.prefix_append _ _), fun heq => ?_⟩
    have hlen := pre.length_le
    rw [heq, List.length_append, List.length_singleton] at hlen
    omega

/-- What lies in the data root, where that has a real directory in it. -/
theorem inside_iff_under (real : fs.Real w.rights d) (isDir : fs.node d = some .dir)
    (pre : rootPath <+: d) : Inside fs p ↔ Under p := by
  obtain ⟨hreal, hdir⟩ := real_prefix real isDir pre
  have leads := leads_of_resolve (resolve_dataroot hreal hdir)
  constructor
  · rintro ⟨root, hroot, hinside⟩
    rwa [leads.unique hroot] at hinside
  · exact fun h => ⟨rootPath, leads, h⟩

/-- What the name of an entry in a real directory denotes. -/
theorem denotes_entry_iff (real : fs.Real w.rights d) (isDir : fs.node d = some .dir)
    (slash : '/' ∉ c) : Denotes fs (spell (d ++ [c])) p ↔ Leads fs d [c] p := by
  have hd : ∀ x ∈ d, '/' ∉ x := fun x hx => (legal_of_node isDir x hx).slash
  have leads := leads_of_resolve (resolve_spell real)
  rw [splitOn_spell hd] at leads
  rw [Denotes, splitOn_spell (slash_notMem_child isDir slash), ← List.cons_append]
  exact leads_append_iff leads (by simp [isDir])

/-! ## A file that exists -/

theorem canonicalizePath_of_found (nonempty : filename ≠ []) (ends : filename.getLast? ≠ some '/')
    (found : fs.realpath w.rights (lookedUp filename) = .ok s) :
    canonicalizePath w filename mustexist fs = (insideRoot s, fs) := by
  rw [lookedUp] at found
  rw [canonicalizePath, if_neg nonempty, if_neg ends, found]

/-- A path under that of the data root is that of an entry in a real directory. -/
theorem entry_of_under (under : Under p) (real : fs.Real w.rights p) :
    ∃ d c, p = d ++ [c] ∧ rootPath <+: d ∧ fs.Real w.rights d ∧ fs.node d = some .dir := by
  obtain ⟨n, hn, -⟩ := real.node
  rcases List.eq_nil_or_concat' p with rfl | ⟨d, c, rfl⟩
  · exact absurd (List.prefix_nil.1 under.1) under.2
  · have hd := real_dropLast real
    rw [List.dropLast_concat] at hd
    exact ⟨d, c, rfl, under_concat_iff.1 under, hd, fs.tree d c n hn⟩

/-- When the name of a file that exists is one in the data root. -/
theorem insideRoot_render_iff (real : fs.Real w.rights p) :
    insideRoot (render p) = .path s ↔ Under p ∧ s = render p := by
  obtain ⟨n, hn, -⟩ := real.node
  have hnames : ∀ x ∈ p, '/' ∉ x := fun x hx => (legal_of_node hn x hx).slash
  rcases List.eq_nil_or_concat' p with rfl | ⟨d, c, rfl⟩
  · have hroot : insideRoot (render []) = .null := rfl
    rw [hroot]
    constructor
    · intro h
      cases h
    · rintro ⟨under, -⟩
      exact absurd (List.prefix_nil.1 under.1) under.2
  · rw [render, if_neg (by simp), insideRoot_spell_iff hnames, under_concat_iff]

/-- The name of a file that exists denotes that file. -/
theorem contained_found_iff (real : fs.Real w.rights p) (under : Under p) :
    Contained fs filename (render p) ↔ Denotes fs (DATAROOT ++ filename) p := by
  obtain ⟨d, c, rfl, pre, hd, isDir⟩ := entry_of_under under real
  have hdenotes : Denotes fs (render (d ++ [c])) (d ++ [c]) := by
    rw [render, if_neg (by simp)]
    exact leads_of_resolve (resolve_spell real)
  have hunique : ∀ q, Denotes fs (render (d ++ [c])) q ↔ q = d ++ [c] :=
    fun q => ⟨fun h => hdenotes.unique h, fun h => h ▸ hdenotes⟩
  refine ⟨fun h => (h.same _).1 hdenotes, fun h => ⟨fun q hq => ?_, fun q => ?_⟩⟩
  · rw [(hunique q).1 hq, inside_iff_under hd isDir pre]
    exact under
  · rw [hunique]
    exact ⟨fun hq => hq ▸ h, fun hq => h.unique hq⟩

/-! ## A new file -/

/-- A name leads out of a directory in the data root just if it escapes. -/
theorem escapes_iff (isDir : fs.node d = some .dir) (pre : rootPath <+: d) (nonempty : c ≠ []) :
    Escapes fs d c ↔ ∃ p, Leads fs d [c] p ∧ ¬ Under p := by
  constructor
  · intro escapes
    cases escapes with
    | dot root => exact ⟨d, .dot isDir (.nil d), fun under => under.2 root.symm⟩
    | up out => exact ⟨_, .up isDir (.nil _), out⟩
    | link there nonempty leads out =>
      rw [← List.append_nil (List.splitOn _ _)] at leads
      exact ⟨_, .link there nonempty leads, out⟩
  · rintro ⟨p, leads, out⟩
    cases leads with
    | empty _ _ => exact absurd rfl nonempty
    | dot _ rest =>
      cases rest
      exact .dot (by_contra fun root => out ⟨pre, Ne.symm root⟩)
    | up _ rest =>
      cases rest
      exact .up out
    | entry _ _ rest =>
      cases rest
      exact absurd (under_concat_iff.2 pre) out
    | link there nonempty rest =>
      rw [List.append_nil] at rest
      exact .link there nonempty rest out
    | new _ _ _ _ _ => exact absurd (under_concat_iff.2 pre) out

theorem slash_notMem_fitting (filename : CStr) (d : Path) : '/' ∉ fitting filename d := by
  unfold fitting
  split_ifs
  · exact fun h => slash_notMem_lastSeg (List.dropLast_subset _ h)
  · exact slash_notMem_lastSeg

/-- What is left in the buffer when the last segment has been attached. -/
theorem take_attached (nonempty : lastSeg filename ≠ [])
    (room : (lastSeg filename).length + (spell d).length < PATH_MAX) :
    (spell d ++ '/' :: lastSeg filename).take (PATH_MAX - 1) = spell (d ++ [fitting filename d]) := by
  have hpos := List.length_pos_iff.2 nonempty
  rw [spell_concat, fitting]
  split_ifs with hfull
  · have hlen : PATH_MAX - 1 = (spell d).length + ((lastSeg filename).length - 1 + 1) := by omega
    rw [hlen, List.take_length_add_append, List.take_succ_cons, List.dropLast_eq_take]
  · apply List.take_of_length_le
    rw [List.length_append, List.length_cons]
    omega

/-- The name that comes out for a new file is that of an entry in the directory that its segments
lead to. -/
theorem canonicalizePath_attached {s t : Place} (creates : Creates w filename mustexist s.fs)
    (at_ : s.At w.rights DATAROOT) (paves : Paves w.rights s (dirSegs filename) t)
    (pre : rootPath <+: t.dir)
    (room : (lastSeg filename).length + (spell t.dir).length < PATH_MAX) :
    canonicalizePath w filename mustexist s.fs =
      (.path (spell (t.dir ++ [fitting filename t.dir])), t.fs) := by
  obtain ⟨buf, hat, hsegs⟩ := canonicalizeDirs_of_paves paves at_ slash_notMem_dirSegs
  have hdirs := hsegs []
  rw [List.append_nil, canonicalizeDirs] at hdirs
  have nonempty := lastSeg_ne_nil creates.nonempty creates.ends
  have hne : t.dir ≠ [] := by
    intro hnil
    rw [hnil] at pre
    exact absurd (List.prefix_nil.1 pre) (by decide)
  have hrender : render t.dir = spell t.dir := if_neg hne
  have hpath : t.fs.realpath w.rights buf = .ok (spell t.dir) :=
    realpath_ok_iff.2 ⟨t.dir, hat.resolve, hrender.symm, by rw [hrender]; omega⟩
  have names := slash_notMem_child hat.dir (slash_notMem_fitting filename t.dir)
  rw [canonicalizePath_of_creates creates, hdirs]
  dsimp only
  rw [hpath]
  dsimp only
  rw [if_neg (Nat.not_le.2 room), take_attached nonempty room,
    (insideRoot_spell_iff names).2 ⟨pre, rfl⟩]

theorem attached_of_canonicalizePath (creates : Creates w filename mustexist fs)
    (h : canonicalizePath w filename mustexist fs = (.path s, fs')) :
    ∃ u t : Place, u.At w.rights DATAROOT ∧ u.fs = fs ∧ Paves w.rights u (dirSegs filename) t ∧
      rootPath <+: t.dir ∧ (lastSeg filename).length + (spell t.dir).length < PATH_MAX ∧
      s = spell (t.dir ++ [fitting filename t.dir]) ∧ fs' = t.fs := by
  have nonempty := lastSeg_ne_nil creates.nonempty creates.ends
  rw [canonicalizePath_of_creates creates] at h
  rcases hdirs : canonicalizeDirs w (dirSegs filename) DATAROOT fs with ⟨_ | buf, fs₁⟩
  · rw [hdirs] at h
    cases h
  rw [hdirs] at h
  dsimp only at h
  cases hpath : fs₁.realpath w.rights buf with
  | error e =>
    rw [hpath] at h
    cases h
  | ok s₁ =>
    rw [hpath] at h
    dsimp only at h
    split_ifs at h with hlong
    · cases h
    obtain ⟨q, hresolve, rfl⟩ := realpath_ok hpath
    obtain ⟨hinside, rfl⟩ := Prod.mk.inj h
    rcases at_or_lost w fs with ⟨u, at_, rfl⟩ | lost
    · obtain ⟨t, paves, rfl, rfl⟩ :=
        paves_of_canonicalizeDirs at_ slash_notMem_dirSegs hdirs hresolve
      have hne : t.dir ≠ [] := by
        intro hnil
        rw [hnil] at hinside
        have hnull : insideRoot ((render [] ++ '/' :: lastSeg filename).take (PATH_MAX - 1)) =
            .null := rfl
        rw [hnull] at hinside
        cases hinside
      rw [render, if_neg hne] at hinside hlong
      have room := Nat.not_le.1 hlong
      rw [take_attached nonempty room] at hinside
      have names := slash_notMem_child (paves.dir at_.dir) (slash_notMem_fitting filename t.dir)
      obtain ⟨pre, hs⟩ := (insideRoot_spell_iff names).1 hinside
      exact ⟨u, t, at_, rfl, paves, pre, room, hs, rfl⟩
    · -- without a data root, there is no directory for the file
      rcases canonicalizeDirs_of_lost lost dataroot_slash slash_notMem_dirSegs with heq | heq
      · rw [hdirs] at heq
        cases heq
      · rw [hdirs] at heq
        cases heq
        exact absurd hresolve (lost q)

/-- Where a file name leads once its directories are there. -/
theorem denotes_paved_iff {u t : Place} (at_ : u.At w.rights DATAROOT)
    (paves : Paves w.rights u (dirSegs filename) t) :
    Denotes t.fs (DATAROOT ++ filename) p ↔ Leads t.fs t.dir [lastSeg filename] p := by
  have walks := at_.walks
  have hsplit := splitOn_dataroot (f := []) List.not_mem_nil
  rw [List.append_nil, ← List.cons_append] at hsplit
  rw [hsplit, walks_concat_empty_iff] at walks
  have leads := leads_of_walks (paves.walks at_.dir walks.1)
  rw [Denotes, splitOn_dataroot_append, ← dirSegs_append_lastSeg, ← List.append_assoc,
    ← List.cons_append, ← List.cons_append]
  exact leads_append_iff leads (by simp [paves.dir at_.dir])

/-- When the name that comes out for a new file is what it should be. -/
theorem contained_attached_iff {u t : Place} (nonempty : lastSeg filename ≠ [])
    (at_ : u.At w.rights DATAROOT) (paves : Paves w.rights u (dirSegs filename) t)
    (pre : rootPath <+: t.dir) :
    Contained t.fs filename (spell (t.dir ++ [fitting filename t.dir])) ↔
      ¬ (Escapes t.fs t.dir (lastSeg filename) ∨ ¬ ∀ p,
        Leads t.fs t.dir [fitting filename t.dir] p ↔ Leads t.fs t.dir [lastSeg filename] p) := by
  obtain ⟨buf, hat, -⟩ := canonicalizeDirs_of_paves paves at_ slash_notMem_dirSegs
  have real := real_of_resolve hat.resolve
  have isDir := hat.dir
  have hdenotes : ∀ p, Denotes t.fs (spell (t.dir ++ [fitting filename t.dir])) p ↔
      Leads t.fs t.dir [fitting filename t.dir] p :=
    fun p => denotes_entry_iff real isDir (slash_notMem_fitting filename t.dir)
  rw [escapes_iff isDir pre nonempty, not_or, not_not]
  constructor
  · intro contained
    have same : ∀ p, Leads t.fs t.dir [fitting filename t.dir] p ↔
        Leads t.fs t.dir [lastSeg filename] p :=
      fun p => by rw [← hdenotes, contained.same, denotes_paved_iff at_ paves]
    refine ⟨?_, same⟩
    rintro ⟨p, leads, out⟩
    rw [← same, ← hdenotes] at leads
    exact out ((inside_iff_under real isDir pre).1 (contained.inside p leads))
  · rintro ⟨stays, same⟩
    refine ⟨fun p hp => ?_, fun p => ?_⟩
    · rw [hdenotes, same] at hp
      rw [inside_iff_under real isDir pre]
      by_contra out
      exact stays ⟨p, hp, out⟩
    · rw [hdenotes, same, denotes_paved_iff at_ paves]

/-- The name that comes out is that of the file under the data root that the file name denotes,
unless the name is cut to another one's, or the last segment leads out of the data root. -/
theorem contained_iff : (∀ s fs', canonicalizePath w filename mustexist fs = (.path s, fs') →
      Contained fs' filename s) ↔
    ¬ LooksUpOther w filename fs ∧ ¬ AttachesOther w filename mustexist fs := by
  constructor
  · intro contained
    constructor
    · rintro ⟨ends, long, p, hresolve, short, under, other⟩
      have nonempty : filename ≠ [] := by
        rintro rfl
        revert long
        decide
      have real := real_of_resolve hresolve
      have found : fs.realpath w.rights (lookedUp filename) = .ok (render p) :=
        realpath_ok_iff.2 ⟨p, hresolve, rfl, by rwa [under.render]⟩
      have heq : canonicalizePath w filename mustexist fs = (.path (render p), fs) := by
        rw [canonicalizePath_of_found nonempty ends found,
          (insideRoot_render_iff real).2 ⟨under, rfl⟩]
      exact other ((contained_found_iff real under).1 (contained _ _ heq))
    · rintro ⟨creates, u, t, at_, rfl, paves, pre, room, hlast⟩
      have nonempty := lastSeg_ne_nil creates.nonempty creates.ends
      have heq := canonicalizePath_attached creates at_ paves pre room
      exact (contained_attached_iff nonempty at_ paves pre).1 (contained _ _ heq) hlast
  · rintro ⟨looks, attaches⟩ s fs' h
    by_cases creates : Creates w filename mustexist fs
    · obtain ⟨u, t, at_, rfl, paves, pre, room, rfl, rfl⟩ :=
        attached_of_canonicalizePath creates h
      have nonempty := lastSeg_ne_nil creates.nonempty creates.ends
      exact (contained_attached_iff nonempty at_ paves pre).2 fun hlast =>
        attaches ⟨creates, u, t, at_, rfl, paves, pre, room, hlast⟩
    · rcases canonicalizePath_of_not_creates creates with hnull | ⟨ends, s₁, found, heq⟩
      · rw [hnull] at h
        cases h
      · rw [heq] at h
        obtain ⟨hinside, rfl⟩ := Prod.mk.inj h
        obtain ⟨p, hresolve, rfl, short⟩ := realpath_ok_iff.1 found
        have real := real_of_resolve hresolve
        obtain ⟨under, rfl⟩ := (insideRoot_render_iff real).1 hinside
        rw [contained_found_iff real under]
        by_contra other
        by_cases long : PATH_MAX ≤ (DATAROOT ++ filename).length
        · rw [under.render] at short
          exact looks ⟨ends, long, p, hresolve, short, under, other⟩
        · rw [lookedUp, List.take_of_length_le (by omega)] at hresolve
          exact other (leads_of_resolve hresolve)

/-- The last segment `..` leads out of the data root, once the directory before it has been made. -/
theorem not_contained : ¬ ∀ (w : CapWorld) (filename : CStr) (mustexist : Bool)
    (fs fs' : FileSystem) (s : CStr),
    canonicalizePath w filename mustexist fs = (.path s, fs') → Contained fs' filename s := by
  intro h
  rcases hpath : canonicalizePath fineWorld "x/../..".toList false (oneFile "a".toList []) with
    ⟨rs, fs'⟩
  have hname : (canonicalizePath fineWorld "x/../..".toList false (oneFile "a".toList [])).1 =
      .path (DATAROOT ++ "..".toList) := by
    decide +kernel
  have hresolve : (canonicalizePath fineWorld "x/../..".toList false
      (oneFile "a".toList [])).2.resolve everyRight (DATAROOT ++ "..".toList) =
        .ok ["media".toList, "data".toList] := by
    decide +kernel
  have hroot : (canonicalizePath fineWorld "x/../..".toList false
      (oneFile "a".toList [])).2.resolve everyRight DATAROOT = .ok rootPath := by
    decide +kernel
  rw [hpath] at hname hresolve hroot
  obtain rfl : rs = .path (DATAROOT ++ "..".toList) := hname
  have contained := h _ _ _ _ _ _ hpath
  obtain ⟨root, leads, pre, -⟩ := contained.inside _ (leads_of_resolve hresolve)
  rw [(leads_of_resolve hroot).unique leads] at pre
  revert pre
  decide

end Tesd
