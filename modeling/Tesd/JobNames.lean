import Tesd.Denoted

/-!
# The files of different jobs

The file name and the measurement of a job, joined by a dash, name the file of its statistics; the
data files have extensions after that, and the converted file is named after the file name alone.
Where no symbolic links interfere, the names of two jobs are apart just if these strings are.
-/

namespace Tesd

open Posix FileSystem

/-- There is no symbolic link on the way to the data root or under it. -/
def NoLinks (fs : FileSystem) : Prop :=
  ∀ p target, p <+: rootPath ∨ rootPath <+: p → fs.node p ≠ some (.symlink target)

/-- The name that the files of a job share. -/
def joined (base group : CStr) : CStr := base ++ (if group = [] then [] else ['-']) ++ group

/-- The name of the converted file. -/
def converted (base : CStr) : CStr := base ++ ".hdf5".toList

/-- The name of the one job's statistics is neither that of the other's nor one of its data files or
its converted file, and none of the data files has the name of the other's statistics. -/
structure Apart (base group base' group' : CStr) : Prop where
  stat : joined base group ≠ joined base' group'
  statData : ∀ ds, joined base group ≠ CapData.dataName (joined base' group') ds
  statConverted : joined base group ≠ converted base'
  dataStat : ∀ ds, CapData.dataName (joined base group) ds ≠ joined base' group'

/-- The names of the files that a capture writes. -/
def CapData.written (d : CapData) : List CStr := d.statfilename :: Dset.all.map d.filename

/-! ## Names without slashes -/

section Plain

variable {w : CapWorld} {fs fs' : FileSystem} {f g s : CStr}

theorem slash_notMem_take {n : ℕ} (h : '/' ∉ f) : '/' ∉ f.take n :=
  fun hmem => h (List.mem_of_mem_take hmem)

/-- The data root is a real directory, or nothing is found in it. -/
theorem root_or_lost (w : CapWorld) (noLinks : NoLinks fs) :
    (fs.Real w.rights rootPath ∧ fs.node rootPath = some .dir) ∨
      ∀ f, '/' ∉ f → ∃ err, fs.resolve w.rights (DATAROOT ++ f) = .error err := by
  by_cases h : fs.Real w.rights rootPath ∧ fs.node rootPath = some .dir
  · exact Or.inl h
  · refine Or.inr fun f hf => ?_
    have names : ∀ c ∈ rootPath, c ≠ [] ∧ c ≠ ['.'] ∧ c ≠ ['.', '.'] := by decide
    rcases real_or_lost (n := SYMLOOP_MAX) (real_root fs w.rights) fs.root names
      (fun pre post target heq => noLinks _ target (Or.inl ⟨post, heq.symm⟩))
      (List.cons_ne_nil f []) with hreal | ⟨err, herr⟩
    · exact absurd hreal h
    · refine ⟨err, ?_⟩
      rw [resolve, splitOn_dataroot hf, walk_cons, if_neg (not_not.2 fs.root), if_pos rfl]
      exact herr

/-- A name in the data root, if that is a real directory. -/
theorem entry_of_root (real : fs.Real w.rights rootPath) (isDir : fs.node rootPath = some .dir)
    (slash : '/' ∉ f) (nonempty : f ≠ []) (dot : f ≠ ['.']) (dotDot : f ≠ ['.', '.']) :
    Entry fs w.rights rootPath f :=
  ⟨real, isDir, nonempty, dot, dotDot, slash⟩

/-- The directory itself and the one above it are not in the data root. -/
theorem not_inside_of_dot (isDir : fs.node rootPath = some .dir)
    (real : fs.Real w.rights rootPath) (h : f = ['.'] ∨ f = ['.', '.'])
    (hpath : fs.realpath w.rights (DATAROOT ++ f) = .ok s) : insideRoot s = .null := by
  obtain ⟨p, hresolve, rfl⟩ := realpath_ok hpath
  have slash : '/' ∉ f := by rcases h with rfl | rfl <;> decide
  have hwalk : fs.walk w.rights SYMLOOP_MAX [] (rootPath ++ [f]) =
      fs.walk w.rights SYMLOOP_MAX rootPath [f] := walk_real_append real isDir
  rw [resolve, splitOn_dataroot slash, walk_cons, if_neg (not_not.2 fs.root), if_pos rfl, hwalk,
    walk_cons, if_neg (not_not.2 isDir)] at hresolve
  have hnil : ∀ p, fs.walk w.rights SYMLOOP_MAX p [] = .ok p := fun _ => rfl
  have hne : f ≠ [] := by rcases h with rfl | rfl <;> decide
  rw [if_neg hne] at hresolve
  by_cases search : w.rights.search rootPath = true
  swap
  · rw [if_pos (by simp [search])] at hresolve
    cases hresolve
  rw [if_neg (by simp [search])] at hresolve
  rcases h with rfl | rfl
  · rw [if_pos rfl, hnil] at hresolve
    obtain rfl := Except.ok.inj hresolve
    exact if_neg (by decide)
  · rw [if_neg (by decide), if_pos rfl, hnil] at hresolve
    obtain rfl := Except.ok.inj hresolve
    exact if_neg (by decide)

/-- The part of a name that is looked up. -/
theorem lookedUp_eq (f : CStr) : lookedUp f = DATAROOT ++ f.take (PATH_MAX - 1 - DATAROOT.length) := by
  rw [lookedUp, List.take_append, List.take_of_length_le (by decide)]

/-- A name that can be looked up is not cut. -/
theorem eq_take_of_short {n : ℕ} (hn : NAME_MAX < n) (h : (f.take n).length ≤ NAME_MAX) :
    f.take n = f := by
  rw [List.length_take] at h
  exact List.take_of_length_le (by omega)

/-- A name that is not found in the data root is short, or one of the two special ones. -/
theorem short_of_missing (real : fs.Real w.rights rootPath) (isDir : fs.node rootPath = some .dir)
    (slash : '/' ∉ g) (nonempty : g ≠ [])
    (missing : fs.realpath w.rights (DATAROOT ++ g) = .error .ENOENT) : g.length ≤ NAME_MAX := by
  by_cases dot : g = ['.']
  · rw [dot]
    decide
  by_cases dotDot : g = ['.', '.']
  · rw [dotDot]
    decide
  by_contra long
  obtain ⟨err, hne, herr⟩ := resolve_of_not_lookable
    (entry_of_root real isDir slash nonempty dot dotDot) fun look => long look.short
  rw [realpath, dataroot_append, herr] at missing
  exact hne (Except.error.inj missing)

/-- What is found in the data root is an entry of it. -/
theorem entry_of_found (noLinks : NoLinks fs) (real : fs.Real w.rights rootPath)
    (isDir : fs.node rootPath = some .dir) (slash : '/' ∉ g) (nonempty : g ≠ [])
    (found : fs.realpath w.rights (DATAROOT ++ g) = .ok s)
    (inside : ∃ s', insideRoot s = .path s') : s = DATAROOT ++ g ∧ g.length ≤ NAME_MAX := by
  obtain ⟨s', inside⟩ := inside
  have hspecial : ¬(g = ['.'] ∨ g = ['.', '.']) := by
    intro h
    rw [not_inside_of_dot isDir real h found] at inside
    cases inside
  rw [not_or] at hspecial
  have e := entry_of_root real isDir slash nonempty hspecial.1 hspecial.2
  obtain ⟨p, hresolve, rfl⟩ := realpath_ok found
  rw [dataroot_append] at hresolve
  by_cases look : Lookable w.rights rootPath g
  swap
  · obtain ⟨err, -, herr⟩ := resolve_of_not_lookable e look
    rw [herr] at hresolve
    cases hresolve
  cases hnode : fs.node (rootPath ++ [g]) with
  | none =>
    rw [resolve_none e look hnode] at hresolve
    cases hresolve
  | some n =>
    have notLink : ∀ target, n ≠ .symlink target := by
      rintro target rfl
      exact noLinks _ target (Or.inr (List.prefix_append _ _)) hnode
    rw [resolve_some e look hnode notLink] at hresolve
    obtain rfl := Except.ok.inj hresolve
    rw [render, if_neg (by simp), dataroot_append]
    exact ⟨rfl, look.short⟩

/-- What a name without slashes canonicalizes to, where there are no links. -/
theorem canonicalizePath_plain {mustexist : Bool} (noLinks : NoLinks fs) (slash : '/' ∉ f)
    (h : canonicalizePath w f mustexist fs = (.path s, fs')) :
    s = DATAROOT ++ f ∧ fs' = fs ∧ f.length ≤ NAME_MAX := by
  have hcut : NAME_MAX < PATH_MAX - 1 - DATAROOT.length := by decide
  have hslash := slash_notMem_take (n := PATH_MAX - 1 - DATAROOT.length) slash
  have nonempty : f ≠ [] := by
    rintro rfl
    rw [canonicalizePath, if_pos rfl] at h
    cases h
  have hne : f.take (PATH_MAX - 1 - DATAROOT.length) ≠ [] := by
    rw [ne_eq, List.take_eq_nil_iff, not_or]
    exact ⟨by decide, nonempty⟩
  by_cases creates : Creates w f mustexist fs
  · have missing := creates.missing
    rw [lookedUp_eq] at missing
    rw [canonicalizePath_of_creates creates, (dirSegs_plain slash).1, (dirSegs_plain slash).2,
      canonicalizeDirs] at h
    dsimp only at h
    rcases root_or_lost w noLinks with ⟨real, isDir⟩ | lost
    · have hshort := short_of_missing real isDir hslash hne missing
      have hf := eq_take_of_short hcut hshort
      rw [hf] at hshort
      rw [realpath, resolve_dataroot real isDir] at h
      dsimp only at h
      rw [if_neg (by decide)] at h
      dsimp only at h
      split_ifs at h
      · cases h
      · obtain ⟨hinside, rfl⟩ := Prod.mk.inj h
        obtain ⟨hs, -⟩ := eq_of_insideRoot hinside
        refine ⟨?_, rfl, hshort⟩
        rw [hs, render, if_neg (by decide), dataroot_eq, List.append_assoc, List.singleton_append]
        apply List.take_of_length_le
        have hlen : (spell rootPath).length = 20 := rfl
        simp only [List.length_append, List.length_cons, hlen, PATH_MAX]
        simp only [NAME_MAX] at hshort
        omega
    · obtain ⟨err, herr⟩ := lost [] List.not_mem_nil
      rw [List.append_nil] at herr
      rw [realpath, herr] at h
      cases h
  · rcases canonicalizePath_of_not_creates creates with hnull | ⟨-, s', hpath, heq⟩
    · rw [hnull] at h
      cases h
    · rw [heq] at h
      obtain ⟨hinside, rfl⟩ := Prod.mk.inj h
      obtain ⟨rfl, -⟩ := eq_of_insideRoot hinside
      rw [lookedUp_eq] at hpath
      rcases root_or_lost w noLinks with ⟨real, isDir⟩ | lost
      · obtain ⟨hs, hshort⟩ := entry_of_found noLinks real isDir hslash hne hpath ⟨_, hinside⟩
        have hf := eq_take_of_short hcut hshort
        rw [hf] at hs hshort
        exact ⟨hs, rfl, hshort⟩
      · obtain ⟨err, herr⟩ := lost _ hslash
        rw [realpath, herr] at hpath
        cases hpath

end Plain

/-! ## The names of two jobs -/

section Jobs

variable {w w' : CapWorld} {fs fs' fs₁ fs₁' : FileSystem} {d d' e e' : CapData}
  {base group base' group' : CStr}

theorem slash_notMem_joined (base_plain : '/' ∉ base) (group_plain : '/' ∉ group) :
    '/' ∉ joined base group := by
  unfold joined
  split_ifs <;> simp [base_plain, group_plain]

theorem slash_notMem_converted (base_plain : '/' ∉ base) : '/' ∉ converted base := by
  have hext : '/' ∉ ".hdf5".toList := by decide
  unfold converted
  rw [List.mem_append, not_or]
  exact ⟨base_plain, hext⟩

/-- The data and the converted files have different extensions. -/
theorem dataName_ne_converted (c base : CStr) (ds : Dset) :
    CapData.dataName c ds ≠ converted base := by
  have hne : ds.extension ≠ "hdf5".toList := by cases ds <;> decide
  intro h
  have hconverted : converted base = base ++ '.' :: "hdf5".toList := rfl
  rw [CapData.dataName, hconverted] at h
  obtain ⟨-, hext⟩ := List.append_inj' h (by simp)
  exact hne (List.cons_injective hext)

/-- A data file's name has the name of the statistics in it. -/
theorem eq_of_dataName {c c' : CStr} {ds ds' : Dset}
    (h : CapData.dataName c ds = CapData.dataName c' ds') : c = c' :=
  (List.append_inj' h (by simp)).1

/-- The names of a capture's files, where there are no links. -/
theorem CapData.names_of_construct (noLinks : NoLinks fs)
    (base_plain : '/' ∉ d.basefname.getD []) (group_plain : '/' ∉ d.measurement.getD [])
    (h : d.constructFilenames w fs = some (.ok, d', fs')) :
    d'.statfilename = DATAROOT ++ joined (d.basefname.getD []) (d.measurement.getD []) ∧
      d'.hdf5filename = DATAROOT ++ converted (d.basefname.getD []) ∧
      ∀ ds, d'.filename ds =
        DATAROOT ++ dataName (joined (d.basefname.getD []) (d.measurement.getD [])) ds := by
  obtain ⟨stat, hdf5, ⟨-, -, -, fs₁, hstat, hhdf5⟩, rfl⟩ := constructFilenames_ok_iff.1 h
  rw [← joined] at hstat
  rw [← converted] at hhdf5
  obtain ⟨hs, rfl, -⟩ := canonicalizePath_plain noLinks
    (slash_notMem_joined base_plain group_plain) hstat
  obtain ⟨hc, -, hshort⟩ := canonicalizePath_plain noLinks
    (slash_notMem_take (slash_notMem_converted base_plain)) hhdf5
  have hcut : NAME_MAX < PATH_MAX - 1 := by decide
  rw [eq_take_of_short hcut hshort] at hc
  refine ⟨hs, hc, fun ds => ?_⟩
  show stat ++ '.' :: ds.extension = _
  rw [hs, dataName, List.append_assoc]

/-- Names under the data root are told apart by what comes after it. -/
theorem dataroot_append_ne {f g : CStr} : DATAROOT ++ f ≠ DATAROOT ++ g ↔ f ≠ g :=
  not_congr (List.append_right_inj DATAROOT)

theorem CapData.mem_written {s : CStr} :
    s ∈ d.written ↔ s = d.statfilename ∨ ∃ ds, s = d.filename ds := by
  simp [written, Dset.mem_all, eq_comm]

/-- Where there are no symbolic links, the files that one job writes are none of another's just if
the strings that name them are apart. -/
theorem different_files_iff (noLinks : NoLinks fs) (noLinks' : NoLinks fs')
    (base_plain : '/' ∉ d.basefname.getD []) (group_plain : '/' ∉ d.measurement.getD [])
    (base_plain' : '/' ∉ e.basefname.getD []) (group_plain' : '/' ∉ e.measurement.getD [])
    (h : d.constructFilenames w fs = some (.ok, d', fs₁))
    (h' : e.constructFilenames w' fs' = some (.ok, e', fs₁')) :
    (∀ s ∈ d'.written, s ∉ e'.written ∧ s ≠ e'.hdf5filename) ↔
      Apart (d.basefname.getD []) (d.measurement.getD []) (e.basefname.getD [])
        (e.measurement.getD []) := by
  obtain ⟨hstat, -, hdata⟩ := CapData.names_of_construct noLinks base_plain group_plain h
  obtain ⟨hstat', hhdf5', hdata'⟩ := CapData.names_of_construct noLinks' base_plain' group_plain' h'
  simp only [CapData.mem_written, hstat, hdata, hstat', hhdf5', hdata']
  constructor
  · intro hdiff
    obtain ⟨hs, hconv⟩ := hdiff _ (Or.inl rfl)
    rw [not_or, not_exists] at hs
    refine ⟨dataroot_append_ne.1 hs.1, fun ds => dataroot_append_ne.1 (hs.2 ds),
      dataroot_append_ne.1 hconv, fun ds => ?_⟩
    obtain ⟨hd, -⟩ := hdiff _ (Or.inr ⟨ds, rfl⟩)
    exact dataroot_append_ne.1 fun heq => hd (Or.inl heq)
  · rintro apart s (rfl | ⟨ds, rfl⟩)
    · rw [not_or, not_exists]
      exact ⟨⟨dataroot_append_ne.2 apart.stat, fun ds => dataroot_append_ne.2 (apart.statData ds)⟩,
        dataroot_append_ne.2 apart.statConverted⟩
    · rw [not_or, not_exists]
      refine ⟨⟨dataroot_append_ne.2 (apart.dataStat ds), fun ds' => dataroot_append_ne.2 ?_⟩,
        dataroot_append_ne.2 (dataName_ne_converted _ _ ds)⟩
      exact fun heq => apart.stat (eq_of_dataName heq)

/-- The job of this name and measurement. -/
def jobOf (base group : CStr) : CapData :=
  { CapData.init with
    basefname := some base
    measurement := some group }

theorem noLinks_enter {dir : Path} {c : Name} {n : Node} (noLinks : NoLinks fs)
    (notLink : ∀ target, n ≠ .symlink target) : NoLinks (fs.enter dir c n) := by
  intro p target hp
  unfold enter
  split_ifs
  · by_cases h : p = dir ++ [c]
    · subst h
      simpa [add] using notLink target
    · simpa [add, h] using noLinks p target hp
  · exact noLinks p target hp

theorem noLinks_oneFile (c : Name) (data : List UInt8) : NoLinks (oneFile c data) := by
  have hbare : NoLinks bare := by
    intro p target _
    by_cases h : p = [] <;> simp [bare, h]
  exact noLinks_enter (noLinks_enter (noLinks_enter (noLinks_enter hbare (by simp)) (by simp))
    (by simp)) (by simp)

theorem different_files_iff_dash : ∃ d' e' fs₁ fs₁',
    (jobOf "a".toList "b".toList).constructFilenames fineWorld (oneFile "c".toList []) =
        some (.ok, d', fs₁) ∧
      (jobOf "a".toList "d".toList).constructFilenames fineWorld (oneFile "c".toList []) =
        some (.ok, e', fs₁') ∧
      ((∀ s ∈ d'.written, s ∉ e'.written ∧ s ≠ e'.hdf5filename) ↔
        Apart "a".toList "b".toList "a".toList "d".toList) := by
  have hok : ∀ group : CStr, group = "b".toList ∨ group = "d".toList →
      ∃ d' fs₁, (jobOf "a".toList group).constructFilenames fineWorld (oneFile "c".toList []) =
        some (.ok, d', fs₁) := by
    intro group hgroup
    have hrc : ((jobOf "a".toList group).constructFilenames fineWorld
        (oneFile "c".toList [])).map (fun r => r.1) = some .ok := by
      rcases hgroup with rfl | rfl <;> decide +kernel
    obtain ⟨⟨rc, d', fs₁⟩, h, rfl⟩ := Option.map_eq_some_iff.1 hrc
    exact ⟨d', fs₁, h⟩
  obtain ⟨d', fs₁, h⟩ := hok "b".toList (Or.inl rfl)
  obtain ⟨e', fs₁', h'⟩ := hok "d".toList (Or.inr rfl)
  have hlinks := noLinks_oneFile "c".toList []
  exact ⟨d', e', fs₁, fs₁', h, h', different_files_iff hlinks hlinks (by decide) (by decide)
    (by decide) (by decide) h h'⟩

/-- The dash of a file name may be the one before the measurement. -/
theorem not_different_files : ¬ ∀ (w : CapWorld) (fs fs₁ fs₁' : FileSystem)
    (d d' e' : CapData) (base group base' group' : CStr), NoLinks fs →
      '/' ∉ base → '/' ∉ group → '/' ∉ base' → '/' ∉ group' → base ≠ [] → base' ≠ [] →
      (base, group) ≠ (base', group') →
      ({ d with basefname := some base, measurement := some group } :
        CapData).constructFilenames w fs = some (.ok, d', fs₁) →
      ({ d with basefname := some base', measurement := some group' } :
        CapData).constructFilenames w fs = some (.ok, e', fs₁') →
      ∀ s ∈ d'.written, s ∉ e'.written ∧ s ≠ e'.hdf5filename := by
  intro hall
  have hdash : ((jobOf "a-b".toList []).constructFilenames fineWorld (oneFile "c".toList [])).map
      (fun r => (r.1, r.2.1.statfilename)) = some (.ok, DATAROOT ++ "a-b".toList) := by
    decide +kernel
  have hgroup : ((jobOf "a".toList "b".toList).constructFilenames fineWorld
      (oneFile "c".toList [])).map (fun r => (r.1, r.2.1.statfilename)) =
      some (.ok, DATAROOT ++ "a-b".toList) := by
    decide +kernel
  obtain ⟨⟨rc, d', fs₁⟩, h, hd⟩ := Option.map_eq_some_iff.1 hdash
  obtain ⟨⟨rc', e', fs₁'⟩, h', he⟩ := Option.map_eq_some_iff.1 hgroup
  obtain ⟨rfl, hstat⟩ := Prod.mk.inj hd
  obtain ⟨rfl, hstat'⟩ := Prod.mk.inj he
  obtain ⟨hne, -⟩ := hall fineWorld (oneFile "c".toList []) fs₁ fs₁' .init d' e' "a-b".toList []
    "a".toList "b".toList (noLinks_oneFile _ _) (by decide) (by decide) (by decide) (by decide)
    (by decide) (by decide) (by decide) h h' d'.statfilename List.mem_cons_self
  refine hne (CapData.mem_written.2 (Or.inl ?_))
  exact hstat.trans hstat'.symm

end Jobs

end Tesd
