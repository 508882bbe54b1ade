import Tesd.CapRequest
import Tesd.Lib.PathNames

/-!
# What a capture request does to the files

Canonicalizing a name creates directories and nothing else, and the name that comes out of it is
that of an entry in a real directory.  Opening the data files without overwriting creates all of
them, or fails; closing them changes only files that are open.
-/

namespace Tesd

open Posix FileSystem

variable {w : CapWorld} {fs fs' : FileSystem}

/-! ## Names -/

section Rel

variable {R : FileSystem → FileSystem → Prop}

/-- What holds of each directory that is made holds of the loop. -/
theorem canonicalizeDirs_rel (w : CapWorld) (refl : ∀ fs, R fs fs)
    (trans : ∀ {fs₁ fs₂ fs₃}, R fs₁ fs₂ → R fs₂ fs₃ → R fs₁ fs₃)
    (made : ∀ fs s, R fs (fs.mkdir w.rights s).2) (segs : List CStr) (buf : CStr)
    (fs : FileSystem) : R fs (canonicalizeDirs w segs buf fs).2 := by
  induction segs generalizing buf fs with
  | nil => exact refl fs
  | cons seg segs ih =>
    rw [canonicalizeDirs]
    split_ifs
    · exact ih buf fs
    · exact refl fs
    · have hmkdir := made fs (buf ++ seg ++ ['/'])
      dsimp only
      split
      next h =>
        rw [h] at hmkdir
        exact trans hmkdir (ih _ _)
      next h =>
        rw [h] at hmkdir
        exact hmkdir
      next h =>
        rw [h] at hmkdir
        exact trans hmkdir (ih _ _)

/-- What holds of each directory that is made holds of canonicalizing a name. -/
theorem canonicalizePath_rel (w : CapWorld) (refl : ∀ fs, R fs fs)
    (trans : ∀ {fs₁ fs₂ fs₃}, R fs₁ fs₂ → R fs₂ fs₃ → R fs₁ fs₃)
    (made : ∀ fs s, R fs (fs.mkdir w.rights s).2) (filename : CStr) (mustexist : Bool)
    (fs : FileSystem) : R fs (canonicalizePath w filename mustexist fs).2 := by
  have hdirs := canonicalizeDirs_rel w refl trans made (filename.splitOn '/').dropLast DATAROOT fs
  unfold canonicalizePath
  split
  · exact refl fs
  split
  · exact refl fs
  split
  · exact refl fs
  split
  · exact refl fs
  split
  · exact refl fs
  dsimp only
  split
  next h =>
    rw [h] at hdirs
    exact hdirs
  next h =>
    rw [h] at hdirs
    split
    · exact hdirs
    · split_ifs <;> exact hdirs

end Rel

theorem keeps_mkdir (fs : FileSystem) (rights : Rights) (s : CStr) :
    fs.Keeps (fs.mkdir rights s).2 :=
  keeps_create fs rights .dir _

theorem keeps_canonicalizeDirs (w : CapWorld) (segs : List CStr) (buf : CStr) (fs : FileSystem) :
    fs.Keeps (canonicalizeDirs w segs buf fs).2 :=
  canonicalizeDirs_rel w keeps_refl Keeps.trans (fun fs s => keeps_mkdir fs w.rights s) segs buf fs

theorem keeps_canonicalizePath (w : CapWorld) (filename : CStr) (mustexist : Bool)
    (fs : FileSystem) : fs.Keeps (canonicalizePath w filename mustexist fs).2 :=
  canonicalizePath_rel w keeps_refl Keeps.trans (fun fs s => keeps_mkdir fs w.rights s) filename
    mustexist fs

/-- The loop leaves a name that ends with a slash. -/
theorem canonicalizeDirs_slash {segs : List CStr} {buf buf' : CStr} {fs : FileSystem}
    (slash : ∃ s, buf = s ++ ['/']) (h : (canonicalizeDirs w segs buf fs).1 = some buf') :
    ∃ s, buf' = s ++ ['/'] := by
  induction segs generalizing buf fs with
  | nil =>
    obtain rfl := Option.some.inj h
    exact slash
  | cons seg segs ih =>
    rw [canonicalizeDirs] at h
    split_ifs at h
    · exact ih slash h
    · dsimp only at h
      split at h
      · exact ih ⟨_, rfl⟩ h
      · cases h
      · exact ih ⟨_, rfl⟩ h

theorem dataroot_slash : ∃ s, DATAROOT = s ++ ['/'] :=
  ⟨DATAROOT.dropLast, by decide⟩

theorem eq_of_insideRoot {s s' : CStr} (h : insideRoot s = .path s') :
    s' = s ∧ DATAROOT.isPrefixOf s = true := by
  unfold insideRoot at h
  split_ifs at h with hroot
  exact ⟨(Canonical.path.inj h).symm, hroot⟩

theorem realpath_ok_iff {rights : Rights} {s s' : CStr} : fs.realpath rights s = .ok s' ↔
    ∃ p, fs.resolve rights s = .ok p ∧ s' = render p ∧ (render p).length < PATH_MAX := by
  unfold realpath
  constructor
  · intro h
    split at h
    · cases h
    next p hp =>
      split_ifs at h with long
      exact ⟨p, hp, (Except.ok.inj h).symm, Nat.not_le.1 long⟩
  · rintro ⟨p, hp, rfl, short⟩
    rw [hp]
    exact if_neg (Nat.not_le.2 short)

theorem realpath_ok {rights : Rights} {s s' : CStr} (h : fs.realpath rights s = .ok s') :
    ∃ p, fs.resolve rights s = .ok p ∧ s' = render p := by
  obtain ⟨p, hp, hs, -⟩ := realpath_ok_iff.1 h
  exact ⟨p, hp, hs⟩

/-- The name of the root is outside of the data root. -/
theorem ne_nil_of_insideRoot {p : Path} {s : CStr} (h : DATAROOT.isPrefixOf (render p ++ s) = true)
    (hs : s.head? = some '/' ∨ s = []) : p ≠ [] := by
  rintro rfl
  rcases hs with hs | rfl
  · obtain ⟨s', rfl⟩ := List.head?_eq_some_iff.1 hs
    have : DATAROOT.isPrefixOf ('/' :: '/' :: s') = false := rfl
    rw [render, if_pos rfl, List.singleton_append, this] at h
    cases h
  · revert h
    decide

/-- The name of what exists, under the data root. -/
theorem entry_of_realpath {s s' : CStr} (hpath : fs.realpath w.rights s = .ok s')
    (hroot : DATAROOT.isPrefixOf s' = true) : ∃ d c, s' = spell (d ++ [c]) ∧ c ≠ [] ∧ '/' ∉ c ∧
      fs.Real w.rights d ∧ fs.node d = some .dir := by
  obtain ⟨p, hresolve, rfl⟩ := realpath_ok hpath
  have hreal := real_of_resolve hresolve
  have hp : p ≠ [] := ne_nil_of_insideRoot (by rwa [List.append_nil]) (Or.inr rfl)
  rw [render, if_neg hp]
  rcases List.eq_nil_or_concat' p with rfl | ⟨d, c, rfl⟩
  · exact absurd rfl hp
  · obtain ⟨n, hn, -⟩ := hreal.node
    have hlegal := legal_of_node hn c (by simp)
    have hd := real_dropLast hreal
    rw [List.dropLast_concat] at hd
    exact ⟨d, c, rfl, hlegal.nonempty, hlegal.slash, hd, fs.tree d c n hn⟩

theorem slash_notMem_segment (filename : CStr) :
    '/' ∉ (filename.splitOn '/').getLast?.getD [] := by
  rw [List.getLast?_eq_some_getLast (List.splitOn_ne_nil '/' filename), Option.getD_some]
  exact splitOn_slash (List.getLast_mem _)

/-- What a name canonicalizes to is the name of an entry in a real directory. -/
theorem entry_of_canonicalizePath {filename s : CStr} {mustexist : Bool}
    (h : canonicalizePath w filename mustexist fs = (.path s, fs'))
    (short : s.length + 1 < PATH_MAX) : ∃ d c, s = spell (d ++ [c]) ∧ c ≠ [] ∧ '/' ∉ c ∧
      fs'.Real w.rights d ∧ fs'.node d = some .dir := by
  unfold canonicalizePath at h
  split at h
  · cases h
  split at h
  · cases h
  split at h
  next s' hpath =>
    obtain ⟨hinside, rfl⟩ := Prod.mk.inj h
    obtain ⟨rfl, hroot⟩ := eq_of_insideRoot hinside
    exact entry_of_realpath hpath hroot
  split at h
  · cases h
  split at h
  · cases h
  dsimp only at h
  split at h
  · cases h
  next buf fs₁ hdirs =>
    split at h
    · cases h
    next s' hpath =>
      split at h
      · cases h
      next hseg =>
        split at h
        · cases h
        next hlong =>
          obtain ⟨hinside, rfl⟩ := Prod.mk.inj h
          obtain ⟨hs, hroot⟩ := eq_of_insideRoot hinside
          -- a name that has been cut is too long for what follows
          have hcut : s = s' ++ '/' :: (filename.splitOn '/').getLast?.getD [] := by
            rw [hs, List.take_of_length_le]
            rw [hs, List.length_take] at short
            omega
          obtain ⟨p, hresolve, rfl⟩ := realpath_ok hpath
          rw [← hs, hcut] at hroot
          have hp : p ≠ [] := ne_nil_of_insideRoot hroot (Or.inl rfl)
          have hbuf : (canonicalizeDirs w (filename.splitOn '/').dropLast DATAROOT fs).1 =
              some buf := by
            rw [hdirs]
          obtain ⟨x, rfl⟩ := canonicalizeDirs_slash dataroot_slash hbuf
          refine ⟨p, _, ?_, hseg, slash_notMem_segment filename, real_of_resolve hresolve,
            dir_of_resolve hresolve⟩
          rw [hcut, render, if_neg hp, spell_concat]

namespace CapData

variable {d d' : CapData} {dss : List Dset}

/-! ## The data files -/

@[simp] theorem extension_length (ds : Dset) : ds.extension.length = 4 := by
  cases ds <;> rfl

theorem extension_injective {ds ds' : Dset} (h : ds.extension = ds'.extension) : ds = ds' := by
  revert h
  cases ds <;> cases ds' <;> decide

theorem slash_notMem_extension (ds : Dset) : '/' ∉ ds.extension := by
  cases ds <;> decide

theorem constructDataNames_of_short (h : d.statfilename.length + 5 < PATH_MAX) :
    (d.constructDataNames dss).1 = .ok := by
  induction dss generalizing d with
  | nil => rfl
  | cons ds dss ih =>
    rw [constructDataNames, if_neg (by simp; omega)]
    exact ih h

/-- The names of the data files are that of the statistics with their extensions. -/
theorem constructDataNames_ok (h : d.constructDataNames dss = (.ok, d')) :
    ∃ filename, d' = { d with filename := filename } ∧
      (∀ ds ∈ dss, filename ds = d.statfilename ++ '.' :: ds.extension) ∧
      (∀ ds ∉ dss, filename ds = d.filename ds) ∧
      (dss ≠ [] → d.statfilename.length + 5 < PATH_MAX) := by
  induction dss generalizing d with
  | nil =>
    obtain ⟨-, rfl⟩ := Prod.mk.inj h
    exact ⟨d.filename, rfl, fun ds hds => absurd hds List.not_mem_nil, fun ds _ => rfl,
      fun hne => absurd rfl hne⟩
  | cons ds dss ih =>
    rw [constructDataNames] at h
    split_ifs at h with hlong
    · cases h
    · obtain ⟨filename, hd', hin, hout, -⟩ := ih h
      have hshort : d.statfilename.length + 5 < PATH_MAX := by
        simp at hlong
        omega
      refine ⟨filename, hd', fun ds' hds' => ?_, fun ds' hds' => ?_, fun _ => hshort⟩
      · by_cases hmem : ds' ∈ dss
        · exact hin ds' hmem
        · obtain rfl : ds' = ds := (List.mem_cons.1 hds').resolve_right hmem
          rw [hout ds' hmem]
          dsimp only
          rw [Function.update_self, List.take_of_length_le]
          simp
          omega
      · rw [List.mem_cons, not_or] at hds'
        rw [hout ds' hds'.2]
        exact Function.update_of_ne hds'.1 _ _

/-- The names that are constructed for a request; `fs'` is the tree after the directories on the way
have been created. -/
structure NamesFor (w : CapWorld) (base group : CStr) (nocapture : Bool) (fs fs' : FileSystem)
    (stat hdf5 : CStr) : Prop where
  short : (base ++ (if group = [] then [] else ['-']) ++ group).length < PATH_MAX
  slash : '/' ∉ group
  room : stat.length + 5 < PATH_MAX
  paths : ∃ fs₁, canonicalizePath w (base ++ (if group = [] then [] else ['-']) ++ group) nocapture
      fs = (.path stat, fs₁) ∧
    canonicalizePath w ((base ++ ".hdf5".toList).take (PATH_MAX - 1)) false fs₁ =
      (.path hdf5, fs')

/-- The data with the names of its files. -/
def named (stat hdf5 : CStr) (d : CapData) : CapData :=
  { d with
    statfilename := stat
    hdf5filename := hdf5
    filename := fun ds => stat ++ '.' :: ds.extension }

theorem constructDataNames_ok_iff {stat hdf5 : CStr} :
    ({ d with statfilename := stat, hdf5filename := hdf5 } : CapData).constructDataNames Dset.all =
        (.ok, d') ↔
      stat.length + 5 < PATH_MAX ∧ d' = d.named stat hdf5 := by
  have hnamed : ∀ {d' : CapData}, ({ d with statfilename := stat, hdf5filename := hdf5 } :
      CapData).constructDataNames Dset.all = (.ok, d') →
      stat.length + 5 < PATH_MAX ∧ d' = d.named stat hdf5 := by
    intro d' h
    obtain ⟨filename, rfl, hin, -, hroom⟩ := constructDataNames_ok h
    have hfilename : filename = fun ds => stat ++ '.' :: ds.extension :=
      funext fun ds => hin ds ds.mem_all
    rw [hfilename]
    exact ⟨hroom (by decide), rfl⟩
  refine ⟨hnamed, ?_⟩
  rintro ⟨hroom, rfl⟩
  have hok : (({ d with statfilename := stat, hdf5filename := hdf5 } :
      CapData).constructDataNames Dset.all).1 = .ok := constructDataNames_of_short hroom
  rcases hdata : ({ d with statfilename := stat, hdf5filename := hdf5 } :
    CapData).constructDataNames Dset.all with ⟨rc, d₂⟩
  rw [hdata] at hok
  obtain rfl : rc = .ok := hok
  rw [(hnamed hdata).2]

/-- When all names can be constructed, and what they are. -/
theorem constructFilenames_ok_iff : d.constructFilenames w fs = some (.ok, d', fs') ↔
    ∃ stat hdf5, NamesFor w (d.basefname.getD []) (d.measurement.getD []) d.nocapture fs fs' stat
      hdf5 ∧ d' = d.named stat hdf5 := by
  obtain ⟨name, hname⟩ : ∃ name, d.basefname.getD [] ++
    (if d.measurement.getD [] = [] then [] else ['-']) ++ d.measurement.getD [] = name := ⟨_, rfl⟩
  unfold constructFilenames
  dsimp only
  constructor
  · intro h
    rw [hname] at h
    split at h
    · cases h
    next hshort =>
      split at h
      · cases h
      · split_ifs at h <;> cases h
      next stat fs₁ hstat =>
        split at h
        · cases h
        next hslash =>
          split at h
          · cases h
          · cases h
          next hdf5 fs₂ hhdf5 =>
            rcases hdata : ({ d with statfilename := stat, hdf5filename := hdf5 } :
              CapData).constructDataNames Dset.all with ⟨rc, d₂⟩
            rw [hdata] at h
            cases h
            obtain ⟨hroom, rfl⟩ := constructDataNames_ok_iff.1 hdata
            rw [← hname] at hshort hstat
            exact ⟨stat, hdf5, ⟨Nat.not_le.1 hshort, hslash, hroom, fs₁, hstat, hhdf5⟩, rfl⟩
  · rintro ⟨stat, hdf5, ⟨hshort, hslash, hroom, fs₁, hstat, hhdf5⟩, rfl⟩
    rw [hname] at hshort hstat ⊢
    rw [if_neg (Nat.not_le.2 hshort), hstat]
    dsimp only
    rw [if_neg hslash, hhdf5]
    dsimp only
    rw [constructDataNames_ok_iff.2 ⟨hroom, rfl⟩]

theorem constructDataNames_eq (dss : List Dset) (d : CapData) :
    ∃ filename, (d.constructDataNames dss).2 = { d with filename := filename } := by
  induction dss generalizing d with
  | nil => exact ⟨d.filename, rfl⟩
  | cons ds dss ih =>
    rw [constructDataNames]
    split_ifs
    · exact ⟨_, rfl⟩
    · obtain ⟨filename, hrest⟩ := ih { d with
        filename := Function.update d.filename ds
          ((d.statfilename ++ '.' :: ds.extension).take (PATH_MAX - 1)) }
      exact ⟨filename, hrest⟩

/-- Constructing the names of the files changes nothing but these, and makes directories. -/
theorem constructFilenames_rel {R : FileSystem → FileSystem → Prop} (refl : ∀ fs, R fs fs)
    (trans : ∀ {fs₁ fs₂ fs₃}, R fs₁ fs₂ → R fs₂ fs₃ → R fs₁ fs₃)
    (made : ∀ fs s, R fs (fs.mkdir w.rights s).2) {rc : CapStatus}
    (h : d.constructFilenames w fs = some (rc, d', fs')) : R fs fs' ∧ ∃ stat hdf5 filename,
      d' = { d with statfilename := stat, hdf5filename := hdf5, filename := filename } := by
  obtain ⟨name, hname⟩ : ∃ name, d.basefname.getD [] ++
    (if d.measurement.getD [] = [] then [] else ['-']) ++ d.measurement.getD [] = name := ⟨_, rfl⟩
  have hcanonical := canonicalizePath_rel w refl trans made
  unfold constructFilenames at h
  dsimp only at h
  rw [hname] at h
  split at h
  · cases h
    exact ⟨refl fs, _, _, _, rfl⟩
  have hfirst := hcanonical name d.nocapture fs
  split at h
  · cases h
  next hpath =>
    rw [hpath] at hfirst
    cases h
    exact ⟨hfirst, _, _, _, rfl⟩
  next stat fs₁ hpath =>
    rw [hpath] at hfirst
    have hsecond := hcanonical ((d.basefname.getD [] ++ ".hdf5".toList).take (PATH_MAX - 1)) false
      fs₁
    split at h
    · cases h
      exact ⟨hfirst, _, _, _, rfl⟩
    split at h
    · cases h
    next hpath₂ =>
      rw [hpath₂] at hsecond
      cases h
      exact ⟨trans hfirst hsecond, _, _, _, rfl⟩
    next hdf5 fs₂ hpath₂ =>
      rw [hpath₂] at hsecond
      cases h
      obtain ⟨filename, hdata⟩ := constructDataNames_eq Dset.all
        { d with statfilename := stat, hdf5filename := hdf5 }
      exact ⟨trans hfirst hsecond, stat, hdf5, filename, hdata⟩

theorem constructFilenames_eq {rc : CapStatus}
    (h : d.constructFilenames w fs = some (rc, d', fs')) : ∃ stat hdf5 filename,
      d' = { d with statfilename := stat, hdf5filename := hdf5, filename := filename } := by
  have hrel := constructFilenames_rel (R := fun _ _ => True) (fun _ => trivial)
    (fun _ _ => trivial) (fun _ _ => trivial) h
  exact hrel.2

theorem constructFilenames_fildes {rc : CapStatus}
    (h : d.constructFilenames w fs = some (rc, d', fs')) : d'.fildes = d.fildes := by
  obtain ⟨_, _, _, rfl⟩ := constructFilenames_eq h
  rfl

theorem keeps_constructFilenames {rc : CapStatus}
    (h : d.constructFilenames w fs = some (rc, d', fs')) : fs.Keeps fs' :=
  (constructFilenames_rel keeps_refl Keeps.trans (fun fs s => keeps_mkdir fs w.rights s) h).1

/-- Opening a file exclusively creates it. -/
theorem openAiobuf_excl (w : CapWorld) (ds : Dset) (d : CapData) (fs : FileSystem) :
    ∃ rc fs', fs.openExcl w.rights (d.filename ds) = (rc, fs') ∧
      ∃ d', d.openAiobuf w true ds fs = (rc.isOk, d', fs') ∧ d'.filename = d.filename ∧
        d'.statfilename = d.statfilename ∧ d'.nooverwrite = d.nooverwrite ∧
        (∀ e, rc = .error e → d'.fildes = d.fildes) ∧
        ∀ p, rc = .ok p → d'.fildes = Function.update d.fildes ds (some p) := by
  rcases hopen : fs.openExcl w.rights (d.filename ds) with ⟨rc, fs'⟩
  refine ⟨rc, fs', rfl, ?_⟩
  have hname : ∀ c, (d.dbgAssert c).filename = d.filename := fun _ => rfl
  rw [openAiobuf]
  simp only [Bool.not_true, Bool.false_and, Bool.false_eq_true, if_false, if_true, hname, hopen,
    ne_eq, not_true]
  cases rc with
  | error e => exact ⟨_, rfl, rfl, rfl, rfl, fun _ _ => rfl, fun p hp => by cases hp⟩
  | ok p =>
    refine ⟨_, rfl, rfl, rfl, rfl, ?_, ?_⟩
    · intro e he
      cases he
    · intro p' hp'
      obtain rfl := Except.ok.inj hp'
      rfl

/-- What exclusive opening leaves alone: what there is, and the open files that are not new. -/
structure OpenedNew (d d' : CapData) (fs fs' : FileSystem) : Prop where
  keeps : fs.Keeps fs'
  new : ∀ ds p, d'.fildes ds = some p → d.fildes ds = some p ∨ fs.node p = none
  statfilename : d'.statfilename = d.statfilename
  nooverwrite : d'.nooverwrite = d.nooverwrite

theorem openAll_excl (w : CapWorld) (dss : List Dset) (d : CapData) (fs : FileSystem) :
    OpenedNew d (d.openAll w true dss fs).2.1 fs (d.openAll w true dss fs).2.2 := by
  induction dss generalizing d fs with
  | nil => exact ⟨keeps_refl fs, fun ds p h => Or.inl h, rfl, rfl⟩
  | cons ds dss ih =>
    obtain ⟨rc, fs', hopen, d', hstep, -, hstat, hmode, herr, hok⟩ := openAiobuf_excl w ds d fs
    have hkeeps : fs.Keeps fs' := by
      have := keeps_create fs w.rights (.file []) (fs.parent w.rights (d.filename ds))
      rw [openExcl] at hopen
      rwa [hopen] at this
    rw [openAll, hstep]
    cases rc with
    | error e =>
      refine ⟨hkeeps, fun ds' p hp => Or.inl ?_, hstat, hmode⟩
      rwa [← herr e rfl]
    | ok p =>
      have hrest := ih d' fs'
      refine ⟨hkeeps.trans hrest.keeps, fun ds' q hq => ?_, hrest.statfilename.trans hstat,
        hrest.nooverwrite.trans hmode⟩
      rcases hrest.new ds' q hq with hq | hq
      · rw [hok p rfl] at hq
        by_cases heq : ds' = ds
        · subst heq
          rw [Function.update_self] at hq
          obtain rfl := Option.some.inj hq
          exact Or.inr (create_new hopen)
        · rw [Function.update_of_ne heq] at hq
          exact Or.inl hq
      · right
        cases hnode : fs.node q with
        | none => rfl
        | some n =>
          rw [hkeeps q n hnode] at hq
          cases hq

/-- The name of a data file in the directory of the statistics. -/
def dataName (c : Name) (ds : Dset) : Name := c ++ '.' :: ds.extension

theorem dataName_injective {c : Name} {ds ds' : Dset} (h : dataName c ds = dataName c ds') :
    ds = ds' :=
  extension_injective (List.cons.inj (List.append_cancel_left h)).2

theorem spell_dataName (dir : Path) (c : Name) (ds : Dset) :
    spell (dir ++ [dataName c ds]) = spell (dir ++ [c]) ++ '.' :: ds.extension := by
  rw [spell_concat, spell_concat, dataName, ← List.cons_append, List.append_assoc]

theorem dataName_ne_nil (c : Name) (ds : Dset) : dataName c ds ≠ [] := by
  simp [dataName]

theorem slash_notMem_dataName {c : Name} (h : '/' ∉ c) (ds : Dset) : '/' ∉ dataName c ds := by
  have := slash_notMem_extension ds
  simp [dataName, h, this]

/-- What can be created next to a new file of another name. -/
theorem canCreate_add_iff {rights : Rights} {dir : Path} {c c' : Name} {n : Node}
    (isDir : fs.node dir = some .dir) (legal : Legal c) (new : fs.node (dir ++ [c]) = none)
    (ne : c' ≠ c) :
    (fs.add dir c n isDir legal new).CanCreate rights dir c' ↔ fs.CanCreate rights dir c' := by
  have hnode : (fs.add dir c n isDir legal new).node (dir ++ [c']) = fs.node (dir ++ [c']) :=
    Function.update_of_ne (by simpa using ne) _ _
  constructor
  · intro h
    exact ⟨h.search, h.legal, hnode ▸ h.new, h.create⟩
  · intro h
    exact ⟨h.search, h.legal, hnode.trans h.new, h.create⟩

/-- All data files are opened exclusively if and only if each can be created. -/
theorem openAll_ok_iff {dir : Path} {c : Name} (real : fs.Real w.rights dir)
    (isDir : fs.node dir = some .dir) (slash : '/' ∉ c) (nodup : dss.Nodup)
    (names : ∀ ds ∈ dss, d.filename ds = spell (dir ++ [dataName c ds])) :
    (d.openAll w true dss fs).1 = .ok ↔
      ∀ ds ∈ dss, fs.CanCreate w.rights dir (dataName c ds) := by
  induction dss generalizing d fs with
  | nil => simp [openAll]
  | cons ds dss ih =>
    rw [List.nodup_cons] at nodup
    obtain ⟨rc, fs', hopen, d', hstep, hname, -⟩ := openAiobuf_excl w ds d fs
    rw [names ds List.mem_cons_self] at hopen
    rw [openAll, hstep, List.forall_mem_cons]
    cases rc with
    | error e =>
      have hno : ¬ fs.CanCreate w.rights dir (dataName c ds) := by
        intro can
        rw [openExcl_of_canCreate real isDir can] at hopen
        cases hopen
      have hfail : (if d'.nooverwrite = true then CapStatus.eabort else .efail) ≠ .ok := by
        split_ifs <;> exact fun h => by cases h
      exact ⟨fun h => absurd h hfail, fun h => absurd h.1 hno⟩
    | ok p =>
      have hcan := canCreate_of_openExcl real isDir (dataName_ne_nil c ds)
        (slash_notMem_dataName slash ds) hopen
      rw [openExcl_of_canCreate real isDir hcan] at hopen
      obtain ⟨-, rfl⟩ := Prod.mk.inj hopen
      have hkeeps : fs.Keeps (fs.add dir (dataName c ds) (.file []) isDir hcan.legal hcan.new) := by
        have := keeps_enter fs dir (dataName c ds) (.file [])
        rwa [enter, dif_pos ⟨isDir, hcan.legal, hcan.new⟩] at this
      have hrest := ih (d := d') (hkeeps.real real) (hkeeps dir _ isDir) nodup.2 fun ds' hds' => by
        rw [hname]
        exact names ds' (List.mem_cons_of_mem ds hds')
      refine hrest.trans ⟨fun h => ⟨hcan, fun ds' hds' => ?_⟩, fun h ds' hds' => ?_⟩
      · have hne : dataName c ds' ≠ dataName c ds := fun heq =>
          nodup.1 (dataName_injective heq ▸ hds')
        exact (canCreate_add_iff isDir hcan.legal hcan.new hne).1 (h ds' hds')
      · have hne : dataName c ds' ≠ dataName c ds := fun heq =>
          nodup.1 (dataName_injective heq ▸ hds')
        exact (canCreate_add_iff isDir hcan.legal hcan.new hne).2 (h.2 ds' hds')

theorem openFiles_eq (w : CapWorld) (excl : Bool) (d : CapData) (fs : FileSystem) :
    ∃ c, d.openFiles w excl fs = (d.dbgAssert c).openAll w excl Dset.all fs := ⟨_, rfl⟩

theorem openFiles_excl (w : CapWorld) (d : CapData) (fs : FileSystem) :
    OpenedNew d (d.openFiles w true fs).2.1 fs (d.openFiles w true fs).2.2 := by
  obtain ⟨c, heq⟩ := openFiles_eq w true d fs
  have h := openAll_excl w Dset.all (d.dbgAssert c) fs
  rw [heq]
  exact ⟨h.keeps, h.new, h.statfilename, h.nooverwrite⟩

theorem openFiles_ok_iff {dir : Path} {c : Name} (real : fs.Real w.rights dir)
    (isDir : fs.node dir = some .dir) (slash : '/' ∉ c)
    (names : ∀ ds, d.filename ds = spell (dir ++ [dataName c ds])) :
    (d.openFiles w true fs).1 = .ok ↔ ∀ ds, fs.CanCreate w.rights dir (dataName c ds) := by
  obtain ⟨b, heq⟩ := openFiles_eq w true d fs
  have nodup : Dset.all.Nodup := by decide
  have hnames : ∀ ds ∈ Dset.all, (d.dbgAssert b).filename ds = spell (dir ++ [dataName c ds]) :=
    fun ds _ => names ds
  rw [heq, openAll_ok_iff real isDir slash nodup hnames]
  exact ⟨fun h ds => h ds ds.mem_all, fun h ds _ => h ds⟩

@[simp] theorem closeAiobuf_fildes (ds : Dset) (d : CapData) (fs : FileSystem) :
    (d.closeAiobuf ds fs).1.fildes = Function.update d.fildes ds none := by
  unfold closeAiobuf
  split
  next h => exact (Function.update_eq_self_iff.2 h.symm).symm
  · rfl

theorem closeAiobuf_node {ds : Dset} {p : Path} (h : d.fildes ds ≠ some p) :
    (d.closeAiobuf ds fs).2.node p = fs.node p := by
  unfold closeAiobuf
  split
  · rfl
  next q hq =>
    apply truncate_of_ne
    rintro rfl
    exact h hq

/-- Closing changes only files that are open. -/
theorem closeFiles_node {p : Path} (h : ∀ ds, d.fildes ds ≠ some p) :
    (d.closeFiles dss fs).2.node p = fs.node p := by
  induction dss generalizing d fs with
  | nil => rfl
  | cons ds dss ih =>
    have hstep : ∀ ds', (d.closeAiobuf ds fs).1.fildes ds' ≠ some p := by
      intro ds'
      rw [closeAiobuf_fildes]
      by_cases heq : ds' = ds
      · rw [heq, Function.update_self]
        exact fun h => by cases h
      · rw [Function.update_of_ne heq]
        exact h ds'
    exact (ih hstep).trans (closeAiobuf_node (h ds))

theorem closeFiles_fildes (ds : Dset) : (d.closeFiles dss fs).1.fildes ds =
    if ds ∈ dss then none else d.fildes ds := by
  induction dss generalizing d fs with
  | nil => rfl
  | cons ds' dss ih =>
    rw [closeFiles, ih, closeAiobuf_fildes]
    by_cases heq : ds = ds'
    · simp [heq]
    · simp [heq]

/-! ## The statistics -/

/-- What `s_stats_read` gets from the file of the statistics. -/
def statsGot (w : CapWorld) (d : CapData) (fs : FileSystem) : Option (List UInt8) :=
  match fs.openRead w.rights d.statfilename with
  | .ok (some data) => if w.readOk then some (data.take STAT_LEN) else none
  | _ => none

/-- The statistics with what has been read written over them. -/
def statsOver (got : Option (List UInt8)) (st : Stats) : Stats :=
  match got with
  | none => st
  | some got => .ofBytes (got ++ st.bytes.drop got.length)

/-- The data with these statistics, once the file is closed. -/
def withStats (st : Stats) (d : CapData) : CapData :=
  { d.withCore { d.job.core with st := st } with statfd := false, dbg := d.dbg && !d.statfd }

/-- What `s_stats_read` leaves: the statistics as far as it has got them. -/
theorem statsRead_eq (w : CapWorld) (d : CapData) (fs : FileSystem) : d.statsRead w fs =
    (if (d.statsGot w fs).map List.length = some STAT_LEN then .ok else .efail,
      d.withStats (statsOver (d.statsGot w fs) d.job.core.st)) := by
  have hname : (d.dbgAssert !d.statfd).statfilename = d.statfilename := rfl
  unfold statsRead statsGot
  dsimp only
  rw [hname]
  rcases fs.openRead w.rights d.statfilename with e | contents
  · rfl
  · dsimp only
    have hgot : (match (Except.ok contents : Except Posix.Errno (Option (List UInt8))) with
        | .ok (some data) => if w.readOk = true then some (data.take STAT_LEN) else none
        | _ => none) = if w.readOk = true then contents.map (List.take STAT_LEN) else none := by
      cases contents with
      | none => exact (ite_self _).symm
      | some data => rfl
    rw [hgot]
    generalize (if w.readOk = true then contents.map (List.take STAT_LEN) else none) = got
    by_cases hlen : got.map List.length = some STAT_LEN
    · rw [if_neg (not_not.2 hlen), if_pos hlen]
      rfl
    · rw [if_pos hlen, if_neg hlen]
      rfl

end CapData

end Tesd
