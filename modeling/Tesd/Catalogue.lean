import Tesd.ArchiveServed

/-!
# What is known of the captures

A server whose data root has no symbolic links answers as if it kept the statistics of its captures
in a table: they are entered when they get into their file, and forgotten when the next capture to
that file begins.  So a query is never answered with the statistics of an earlier capture, nor with
part of some, however the later one ended.
-/

namespace Tesd

open Posix FileSystem

namespace CapData

variable {w : CapWorld} {req : CapRequest} {d d' : CapData} {fs fs' : FileSystem} {dir p : Path}
  {c : Name} {excl : Bool} {stat hdf5 : CStr}

/-! ## Opening files where there are no links -/

/-- What opening does by the name of an entry that is not a link: it changes, and opens, that entry
only, and only if it can look it up. -/
structure OpensAt (rights : Rights) (fs fs' : FileSystem) (dir : Path) (c : Name)
    (file : Option (Path × List UInt8)) : Prop where
  others : ∀ p, p ≠ dir ++ [c] → fs'.node p = fs.node p
  plain : ∀ target, fs'.node (dir ++ [c]) ≠ some (.symlink target)
  at_ : ∀ p contents, file = some (p, contents) → p = dir ++ [c] ∧ Lookable rights dir c

theorem opensAt_update {n : Option Node} (hnode : fs'.node = Function.update fs.node (dir ++ [c]) n)
    (plain : ∀ target, n ≠ some (.symlink target)) {file : Option (Path × List UInt8)}
    (at_ : ∀ p contents, file = some (p, contents) → p = dir ++ [c] ∧ Lookable w.rights dir c) :
    OpensAt w.rights fs fs' dir c file := by
  refine ⟨fun p hp => ?_, fun target => ?_, at_⟩
  · rw [hnode, Function.update_of_ne hp]
  · rw [hnode, Function.update_self]
    exact plain target

theorem openByName_at (excl : Bool) (e : Entry fs w.rights dir c)
    (plain : ∀ target, fs.node (dir ++ [c]) ≠ some (.symlink target)) :
    OpensAt w.rights fs (openByName w excl (spell (dir ++ [c])) fs).2 dir c
      (openByName w excl (spell (dir ++ [c])) fs).1 := by
  have refused : OpensAt w.rights fs fs dir c none :=
    ⟨fun _ _ => rfl, plain, fun _ _ h => by cases h⟩
  by_cases look : Lookable w.rights dir c
  swap
  · rw [openByName_not_lookable e look]
    exact refused
  cases hnode : fs.node (dir ++ [c]) with
  | none =>
    rw [openByName_none e look hnode, opened_tree]
    by_cases hcreate : w.rights.create (dir ++ [c]) = true
    · obtain ⟨hok, hmade⟩ := create_of_none (n := .file []) e.dir (legal_of_entry e look) hnode
        hcreate
      refine opensAt_update hmade (by simp) fun p contents h => ?_
      rcases hcr : fs.create w.rights (.file []) (.ok (dir, c)) with ⟨rc, fs₁⟩
      rw [hcr] at hok h
      obtain rfl : rc = .ok (dir ++ [c]) := hok
      exact ⟨(Prod.mk.inj (Option.some.inj h)).1.symm, look⟩
    · have hrefused : ∃ err, fs.create w.rights (.file []) (.ok (dir, c)) = (.error err, fs) :=
        create_refused fun h => hcreate h.2
      obtain ⟨err, herr⟩ := hrefused
      rw [herr]
      exact refused
  | some n =>
    have notLink : ∀ target, n ≠ .symlink target := fun target h => plain target (by rw [hnode, h])
    have access := accessOk_some e look hnode notLink
    cases excl with
    | true =>
      rw [openByName_exists e look (by simp [hnode])]
      exact refused
    | false =>
      by_cases hmay : Lookable w.rights dir c ∧ w.rights.remove (dir ++ [c]) = true ∧
        fs.node (dir ++ [c]) ≠ none ∧ fs.node (dir ++ [c]) ≠ some .dir
      · obtain ⟨-, remove, -, hdir⟩ := hmay
        rcases openByName_removed access e look hnode (fun hn => hdir (by rw [hnode, hn])) remove
          with ⟨-, hopen, hafter⟩ | ⟨-, hopen, hafter⟩
        · refine opensAt_update hafter (by simp) fun p contents h => ?_
          rw [hopen] at h
          exact ⟨(Prod.mk.inj (Option.some.inj h)).1.symm, look⟩
        · refine opensAt_update hafter (by simp) fun p contents h => ?_
          rw [hopen] at h
          cases h
      · rw [openByName_denied access e hmay]
        exact refused

/-- What opening the data files does next to statistics in a directory without links. -/
structure OpensAll (rights : Rights) (d d' : CapData) (fs fs' : FileSystem) (dir : Path) (c : Name)
    (dss : List Dset) (rc : CapStatus) : Prop where
  others : ∀ p, (∀ ds, p ≠ dir ++ [dataName c ds]) → fs'.node p = fs.node p
  plain : ∀ ds target, fs'.node (dir ++ [dataName c ds]) ≠ some (.symlink target)
  opened : ∀ ds p, d'.fildes ds = some p → d.fildes ds = some p ∨ p = dir ++ [dataName c ds]
  look : rc = .ok → ∀ ds ∈ dss, Lookable rights dir (dataName c ds)

theorem openAll_at (excl : Bool) (dss : List Dset)
    (e : ∀ ds, Entry fs w.rights dir (dataName c ds))
    (names : ∀ ds, d.filename ds = spell (dir ++ [dataName c ds]))
    (plain : ∀ ds target, fs.node (dir ++ [dataName c ds]) ≠ some (.symlink target)) :
    OpensAll w.rights d (d.openAll w excl dss fs).2.1 fs (d.openAll w excl dss fs).2.2 dir c dss
      (d.openAll w excl dss fs).1 := by
  induction dss generalizing d fs with
  | nil => exact ⟨fun _ _ => rfl, plain, fun _ _ h => Or.inl h, fun _ _ h => by cases h⟩
  | cons ds dss ih =>
    rw [openAll]
    obtain ⟨b, -, heq⟩ := openAiobuf_eq w excl ds d fs
    have hdirs : ∀ q, fs.node q = some .dir →
        (openByName w excl (spell (dir ++ [dataName c ds])) fs).2.node q = some .dir :=
      fun _ => dirs_openByName w excl (e ds)
    have hat := openByName_at excl (e ds) (plain ds)
    rw [names] at heq
    rw [heq]
    rcases hopen : openByName w excl (spell (dir ++ [dataName c ds])) fs with
      ⟨_ | ⟨q, contents⟩, fs'⟩
    all_goals
      rw [hopen] at hdirs hat
      have plain' : ∀ ds' target, fs'.node (dir ++ [dataName c ds']) ≠ some (.symlink target) := by
        intro ds' target
        by_cases hds : ds' = ds
        · rw [hds]
          exact hat.plain target
        · have hne : dir ++ [dataName c ds'] ≠ dir ++ [dataName c ds] := fun h =>
            hds (dataName_injective (List.singleton_inj.1 (List.append_cancel_left h)))
          have hsame := hat.others _ hne
          rw [hsame]
          exact plain ds' target
    · refine ⟨fun p hp => hat.others p (hp ds), plain', fun _ _ h => Or.inl h, fun h => ?_⟩
      dsimp only at h
      split_ifs at h
    · obtain ⟨rfl, hlook⟩ := hat.at_ q contents rfl
      have hrest := ih (d := (d.dbgAssert b).withFile ds (dir ++ [dataName c ds]) (w.sched ds)
        contents) (fun ds' => entry_of_dirs hdirs (e ds')) names plain'
      refine ⟨fun p hp => (hrest.others p hp).trans (hat.others p (hp ds)), hrest.plain,
        fun ds' p h => ?_, fun h ds' hmem => ?_⟩
      · rcases hrest.opened ds' p h with hp | hp
        · by_cases hds : ds' = ds
          · subst hds
            rw [withFile_fildes_self] at hp
            exact Or.inr (Option.some.inj hp).symm
          · rw [withFile_fildes_of_ne hds] at hp
            exact Or.inl hp
        · exact Or.inr hp
      · rcases List.mem_cons.1 hmem with rfl | hmem
        · exact hlook
        · exact hrest.look h ds' hmem

/-! ## Requests where there are no links -/

theorem noLinks_of_others {q : Path} (noLinks : NoLinks fs)
    (others : ∀ p, p ≠ q → fs'.node p = fs.node p)
    (plain : ∀ target, fs'.node q ≠ some (.symlink target)) : NoLinks fs' := by
  intro p target hp
  by_cases hq : p = q
  · rw [hq]
    exact plain target
  · rw [others p hq]
    exact noLinks p target hp

theorem noLinks_put (noLinks : NoLinks fs) (q : Path) (contents : List UInt8) :
    NoLinks (fs.put q contents) := by
  intro p target hp
  rcases put_cases fs q contents p with h | ⟨-, h⟩
  · rw [h]
    exact noLinks p target hp
  · rw [h]
    simp

theorem noLinks_truncate (noLinks : NoLinks fs) (q : Path) (len : ℕ) :
    NoLinks (fs.truncate q len) := by
  intro p target hp
  by_cases hq : p = q
  · subst hq
    unfold truncate
    split
    · dsimp only [setFile]
      rw [Function.update_self]
      simp
    · exact noLinks p target hp
  · rw [truncate_of_ne len hq]
    exact noLinks p target hp

theorem noLinks_closeFiles (noLinks : NoLinks fs) (dss : List Dset) (d : CapData) :
    NoLinks (d.closeFiles dss fs).2 := by
  induction dss generalizing d fs with
  | nil => exact noLinks
  | cons ds dss ih =>
    refine ih ?_ _
    unfold closeAiobuf
    split
    · exact noLinks
    · exact noLinks_truncate noLinks _ _

theorem noLinks_save {files : Dset → List UInt8} (noLinks : NoLinks fs) (dss : List Dset) :
    NoLinks (d.save files dss fs) := by
  induction dss generalizing fs with
  | nil => exact noLinks
  | cons ds dss ih =>
    refine ih ?_
    split
    · exact noLinks
    · exact noLinks_put noLinks _ _

theorem noLinks_statsWrite {w : ArchiveWorld} {st : Stats} (noLinks : NoLinks fs) :
    NoLinks (d.statsWrite w st fs).2 := by
  have hcreate := noLinks_create noLinks (n := .file []) (fun _ h => by cases h) w.rights
    (fs.parent w.rights d.statfilename)
  unfold statsWrite
  rcases hopen : fs.openExcl w.rights d.statfilename with ⟨err | q, fs'⟩
  all_goals
    rw [openExcl] at hopen
    rw [hopen] at hcreate
  · exact hcreate
  · exact noLinks_put hcreate _ _

theorem inside_of_canonicalizePath {f s : CStr} {mustexist : Bool}
    (h : canonicalizePath w f mustexist fs = (.path s, fs')) : ∃ s', insideRoot s' = .path s := by
  by_cases creates : Creates w f mustexist fs
  · rw [canonicalizePath_of_creates creates] at h
    split at h
    · cases h
    · split at h
      · cases h
      · split_ifs at h
        · cases h
        · exact ⟨_, (Prod.mk.inj h).1⟩
  · rcases canonicalizePath_of_not_creates creates with hnull | ⟨-, s', -, heq⟩
    · rw [hnull] at h
      cases h
    · rw [heq] at h
      exact ⟨s', (Prod.mk.inj h).1⟩

/-- The statistics are in the data root. -/
theorem root_of_placed {base group : CStr} {nocapture : Bool}
    (names : NamesFor w base group nocapture fs fs' stat hdf5)
    (placed : Placed w (d.named stat hdf5) fs' dir c) : rootPath <+: dir := by
  obtain ⟨fs₁, hstat, -⟩ := names.paths
  obtain ⟨s, hs⟩ := inside_of_canonicalizePath hstat
  obtain ⟨rfl, -⟩ := eq_of_insideRoot hs
  have hspell : stat = spell (dir ++ [c]) := placed.stat
  rw [hspell] at hs
  exact ((insideRoot_spell_iff (slash_notMem_child placed.isDir placed.slash)).1 hs).1

/-- The start of a capture in a directory without links: what has none of its names is not changed,
and if the job begins, there are no statistics. -/
structure StartsAt (d' : CapData) (fs fs' : FileSystem) (activated : Bool) (dir : Path) (c : Name) :
    Prop where
  others : ∀ p, p ≠ dir ++ [c] → (∀ ds, p ≠ dir ++ [dataName c ds]) → fs'.node p = fs.node p
  noLinks : NoLinks fs'
  opened : ∀ ds p, d'.fildes ds = some p → p = dir ++ [dataName c ds]
  begun : activated = true → fs'.node (dir ++ [c]) = none
  refused : activated = false → fs'.node (dir ++ [c]) = fs.node (dir ++ [c])

theorem name_ne_dataName (c : Name) (ds : Dset) : dir ++ [c] ≠ dir ++ [dataName c ds] := by
  intro h
  have hlen := congrArg List.length (List.singleton_inj.1 (List.append_cancel_left h))
  simp [dataName] at hlen

theorem start_at (placed : Placed w d fs dir c) (root : rootPath <+: dir) (noLinks : NoLinks fs)
    (idle : d.Idle) : StartsAt (d.start w fs).data fs (d.start w fs).fs (d.start w fs).activated
      dir c := by
  have hentry := entry_of_placed placed
  have hunder : ∀ x : Name, rootPath <+: dir ++ [x] := fun x => root.trans (List.prefix_append _ _)
  obtain ⟨rc, d₁, fs₁, hopen, hstart⟩ := start_cases w d fs
  obtain ⟨-, placed₁, -⟩ := openFiles_spares placed hopen
  have hat : OpensAll w.rights d d₁ fs fs₁ dir c Dset.all rc := by
    obtain ⟨b, heq⟩ := openFiles_eq w d.nooverwrite d fs
    have hnames : ∀ ds, (d.dbgAssert b).filename ds = spell (dir ++ [dataName c ds]) :=
      placed.names
    have hall := openAll_at d.nooverwrite Dset.all hentry hnames
      fun ds target => noLinks _ target (Or.inr (hunder _))
    rw [← heq, hopen] at hall
    exact ⟨hall.others, hall.plain, hall.opened, hall.look⟩
  have hclosed : ∀ ds p, d₁.fildes ds = some p → p = dir ++ [dataName c ds] := by
    intro ds p h
    refine (hat.opened ds p h).resolve_left fun h => ?_
    rw [idle ds] at h
    cases h
  have noLinks₁ : NoLinks fs₁ := by
    intro p target hp
    by_cases hds : ∃ ds, p = dir ++ [dataName c ds]
    · obtain ⟨ds, rfl⟩ := hds
      exact hat.plain ds target
    · rw [hat.others p fun ds h => hds ⟨ds, h⟩]
      exact noLinks p target hp
  have hstat₁ : fs₁.node (dir ++ [c]) = fs.node (dir ++ [c]) :=
    hat.others _ (name_ne_dataName c)
  rcases hstart with ⟨fs₂, h, rfl, hun⟩ | ⟨reply, h⟩
  · rw [h]
    -- the name of the statistics is shorter than those of the data files, which have been opened
    have look : Lookable w.rights dir c := by
      obtain ⟨hsearch, hshort⟩ := hat.look rfl .fidx (by decide)
      refine ⟨hsearch, ?_⟩
      have hlen : (dataName c .fidx).length = c.length + 5 := by simp [dataName]
      omega
    have hafter : (∀ p, p ≠ dir ++ [c] → fs₂.node p = fs₁.node p) ∧
        fs₂.node (dir ++ [c]) = none := by
      rcases hun with ⟨access, rfl⟩ | hun
      · refine ⟨fun _ _ => rfl, ?_⟩
        by_contra hsome
        obtain ⟨n, there⟩ := Option.ne_none_iff_exists'.1 hsome
        have notLink : ∀ target, n ≠ .symlink target := by
          rintro target rfl
          exact noLinks₁ _ target (Or.inr (hunder c)) there
        have hspecial : c ≠ ['.'] ∧ c ≠ ['.', '.'] := by
          have hlegal := legal_of_node there c (by simp)
          exact ⟨hlegal.dot, hlegal.dotDot⟩
        have e : Entry fs₂ w.rights dir c := ⟨placed₁.real, placed₁.isDir, placed₁.nonempty,
          hspecial.1, hspecial.2, placed₁.slash⟩
        rw [placed₁.stat, accessOk_some e look there notLink] at access
        cases access
      · rcases unlink_cases fs₁ w.rights d₁.statfilename with
          ⟨err, herr⟩ | ⟨dir', c', hplace, -, -, -, hnode⟩
        · rw [hun] at herr
          cases herr
        · rw [placed₁.stat, parent_spell placed₁.real placed₁.isDir placed₁.nonempty placed₁.slash]
            at hplace
          split_ifs at hplace
          obtain ⟨rfl, rfl⟩ := Prod.mk.inj (Except.ok.inj hplace)
          rw [hun] at hnode
          dsimp only at hnode
          refine ⟨fun p hp => ?_, ?_⟩
          · rw [hnode, Function.update_of_ne hp]
          · rw [hnode, Function.update_self]
    refine ⟨fun p hp hds => (hafter.1 p hp).trans (hat.others p hds), ?_, hclosed,
      fun _ => hafter.2, fun h => by cases h⟩
    refine noLinks_of_others noLinks₁ hafter.1 fun target h => ?_
    rw [hafter.2] at h
    cases h
  · rw [h]
    refine ⟨fun p _ hds => ?_, noLinks_closeFiles noLinks₁ _ _, fun ds p h => ?_,
      fun h => (by cases h), fun _ => ?_⟩
    · refine (closeFiles_node (d := d₁.free) fun ds hp => ?_).trans (hat.others p hds)
      exact hds ds (hclosed ds p hp)
    · rw [idle_closeFiles d₁.free fs₁ ds] at h
      cases h
    · refine (closeFiles_node (d := d₁.free) fun ds hp => ?_).trans hstat₁
      exact name_ne_dataName c ds (hclosed ds _ hp)

end CapData

/-- A conversion changes the converted file only, and makes no links. -/
structure CapWorld.ConvertsExactly (w : CapWorld) : Prop where
  others : ∀ d fs p, spell p ≠ d.hdf5filename → (w.conv d fs).2.node p = fs.node p
  noLinks : ∀ d fs, NoLinks fs → NoLinks (w.conv d fs).2

/-- The file of this name is a data file of the capture that is asked for, or the converted file. -/
def CapRequest.Spoils (w : CapWorld) (req : CapRequest) (fs : FileSystem) (s : CStr) : Prop :=
  ∃ fs' stat hdf5, req.Names w fs fs' stat hdf5 ∧
    ((req.Captures ∧ ∃ ds : Dset, s = stat ++ '.' :: ds.extension) ∨ (req.Converts ∧ s = hdf5))

/-- No statistics can be read from there. -/
def Lacks (p : Path) (fs : FileSystem) : Prop :=
  ∀ data, fs.node p = some (.file data) → data.length < STAT_LEN

namespace CapData

variable {w : CapWorld} {req : CapRequest} {d d' : CapData} {fs fs' : FileSystem} {dir p : Path}
  {c : Name} {stat hdf5 : CStr}

/-- What a request does to the file `p` of some statistics, which is no data file of it. -/
structure AsksAt (p : Path) (d' : CapData) (fs fs' : FileSystem) (activated : Bool) : Prop where
  noLinks : NoLinks fs'
  closed : ∀ ds, d'.fildes ds ≠ some p
  begun : activated = true → d'.statfilename = spell p → fs'.node p = none
  same : (activated = true → d'.statfilename ≠ spell p) →
    ∀ data, fs'.node p = some (.file data) ↔ fs.node p = some (.file data)

theorem taskCapReqHn_at {out : CapOutcome} (idle : d.Idle) (noLinks : NoLinks fs)
    (plain : ∀ x ∈ p, '/' ∉ x) (exactly : w.ConvertsExactly)
    (clear : ¬ req.Spoils w fs (spell p)) (h : taskCapReqHn w req d fs = some out) :
    AsksAt p out.data fs out.fs out.activated := by
  have hclosed : out.activated = false → ∀ ds, out.data.fildes ds ≠ some p := by
    intro hout ds
    rw [idle_of_taskCapReqHn idle h hout ds]
    simp
  rcases taskCapReqHn_does h with ⟨honly, hout⟩ |
    ⟨d₀, fs₁, stat, hdf5, hfildes, honly, names, -, ⟨capture, rfl⟩ | ⟨capture, rfl⟩⟩
  · refine ⟨honly.noLinks noLinks, hclosed hout, fun h => ?_, fun _ => honly.files p⟩
    rw [hout] at h
    cases h
  · obtain ⟨dir, c, placed⟩ := placed_of_names d₀ names
    have root : rootPath <+: dir := by
      rcases names with ⟨-, names⟩ | ⟨-, names⟩ <;> exact root_of_placed names placed
    have idle₀ : ((d₀.recv req).checkedReq.named stat hdf5).Idle := fun ds =>
      (congrFun hfildes ds).trans (idle ds)
    have hat := start_at placed root (honly.noLinks noLinks) idle₀
    have hother : ∀ ds, p ≠ dir ++ [dataName c ds] := by
      rintro ds rfl
      exact clear ⟨fs₁, stat, hdf5, names, Or.inl ⟨capture, ds, (placed.names ds).symm⟩⟩
    refine ⟨hat.noLinks, fun ds hp => hother ds (hat.opened ds p hp), fun started hp => ?_,
      fun elsewhere data => ?_⟩
    · have hstat := (start_placed placed started).2.stat
      rw [hp] at hstat
      rw [spell_injective plain (slash_notMem_child placed.isDir placed.slash) hstat]
      exact hat.begun started
    · refine Iff.trans ?_ (honly.files p data)
      by_cases hp : p = dir ++ [c]
      · cases started : ((d₀.recv req).checkedReq.named stat hdf5 |>.start w fs₁).activated with
        | false => rw [hp, hat.refused started]
        | true =>
          have hstat := (start_placed placed started).2.stat
          exact absurd (hstat.trans (congrArg spell hp.symm)) (elsewhere started)
      · rw [hat.others p hp hother]
  · have hquiet := query_inactive w ((d₀.recv req).checkedReq.named stat hdf5) fs₁
    refine ⟨?_, hclosed hquiet, fun h => ?_, fun _ data => Iff.trans ?_ (honly.files p data)⟩
    · rw [query_fs]
      split_ifs
      · exact honly.noLinks noLinks
      · exact exactly.noLinks _ _ (honly.noLinks noLinks)
    · rw [hquiet] at h
      cases h
    · rw [query_fs]
      split_ifs with hconv
      · exact Iff.rfl
      · rw [exactly.others]
        intro hp
        rw [Bool.not_eq_true] at hconv
        exact clear ⟨fs₁, stat, hdf5, names, Or.inr ⟨converts_of_checkedReq hconv, hp⟩⟩

/-! ## The end of a job where there are no links -/

/-- What the end of a job, with these statistics in their file or not, makes of the file `p`, which
is no data file of it. -/
structure EndsAt (p : Path) (stat : CStr) (wrote : Bool) (st : Stats) (fs fs' : FileSystem) :
    Prop where
  noLinks : NoLinks fs → NoLinks fs'
  same : stat ≠ spell p → fs'.node p = fs.node p
  recorded : stat = spell p → wrote = true → fs'.node p = some (.file st.bytes)
  lacking : stat = spell p → wrote = false → fs.node p = none → Lacks p fs'

theorem statsWrite_at {w : ArchiveWorld} {st : Stats} (placed : Placed w.toCapWorld d fs dir c)
    (plain : ∀ x ∈ p, '/' ∉ x) :
    EndsAt p d.statfilename (d.statsWrite w st fs).1 st fs (d.statsWrite w st fs).2 := by
  have hname : d.statfilename = spell p → p = dir ++ [c] := fun h =>
    spell_injective plain (slash_notMem_child placed.isDir placed.slash) (h.symm.trans placed.stat)
  refine ⟨noLinks_statsWrite, fun h => ?_, fun h wrote => ?_, fun h wrote hnone => ?_⟩
  · have hp : p ≠ dir ++ [c] := by
      rintro rfl
      exact h placed.stat
    rcases statsWrite_cases w st placed with hrefused | ⟨-, -, hnode⟩
    · rw [hrefused]
    · rw [hnode, Function.update_of_ne hp]
  · rw [hname h]
    exact statsWrite_records placed wrote
  · rcases statsWrite_cases w st placed with hrefused | ⟨-, hwrote, hnode⟩
    · rw [hrefused]
      intro data hdata
      rw [hnone] at hdata
      cases hdata
    · have hshort : w.wrote < STAT_LEN :=
        Nat.lt_of_not_le (of_decide_eq_false (hwrote.symm.trans wrote))
      intro data hdata
      rw [hnode, hname h, Function.update_self] at hdata
      obtain rfl := Node.file.inj (Option.some.inj hdata)
      rw [List.length_take]
      omega

theorem EndsAt.after {wrote : Bool} {st : Stats} {fs'' : FileSystem}
    (h : EndsAt p stat wrote st fs fs') (noLinks : NoLinks fs' → NoLinks fs'')
    (same : fs''.node p = fs'.node p) : EndsAt p stat wrote st fs fs'' :=
  ⟨fun hno => noLinks (h.noLinks hno), fun hne => same.trans (h.same hne),
    fun hstat hwrote => same.trans (h.recorded hstat hwrote), fun hstat hwrote hnone => by
      rw [Lacks, same]
      exact h.lacking hstat hwrote hnone⟩

theorem EndsAt.before {wrote : Bool} {st : Stats} {fs₀ : FileSystem}
    (h : EndsAt p stat wrote st fs fs') (noLinks : NoLinks fs₀ → NoLinks fs)
    (same : fs.node p = fs₀.node p) : EndsAt p stat wrote st fs₀ fs' :=
  ⟨fun hno => h.noLinks (noLinks hno), fun hne => (h.same hne).trans same, h.recorded,
    fun hstat hwrote hnone => h.lacking hstat hwrote (same.trans hnone)⟩

/-- The statistics are written once the data files are complete. -/
theorem statsWrite_save_at {w : ArchiveWorld} (report : Report)
    (placed : Placed w.toCapWorld d fs dir c) (plain : ∀ x ∈ p, '/' ∉ x)
    (closed : ∀ ds, d.fildes ds ≠ some p) :
    EndsAt p d.statfilename (d.statsWrite w report.st (d.save report.files Dset.all fs)).1 report.st
      fs (d.statsWrite w report.st (d.save report.files Dset.all fs)).2 :=
  (statsWrite_at (placed_save _ _ placed) plain).before (fun noLinks => noLinks_save noLinks _)
    (save_other _ _ closed)

theorem conclude_at {w : ArchiveWorld} (report : Report) {job : Job}
    (placed : Placed w.toCapWorld d fs dir c) (plain : ∀ x ∈ p, '/' ∉ x)
    (closed : ∀ ds, d.fildes ds ≠ some p) (exactly : w.ConvertsExactly)
    (conv : job.core.noconvert = false → spell p ≠ d.hdf5filename) :
    EndsAt p d.statfilename (d.conclude w report job fs).1.statsWritten report.st fs
      (d.conclude w report job fs).2 := by
  have hwrite := statsWrite_save_at report placed plain closed
  unfold conclude
  dsimp only
  split_ifs with hdo
  · exact hwrite.after (exactly.noLinks _ _) (exactly.others _ _ _ (conv hdo.2))
  · exact hwrite

end CapData

/-- The event is not a request by which the file of this name comes to hold other data than
statistics. -/
def ArchiveEvent.Clear (s : CStr) (e : ArchiveEvent) (a : Archive) : Prop :=
  match e with
  | .request w req => w.ConvertsExactly ∧ ¬ req.Spoils w.toCapWorld a.fs s
  | _ => True

/-- The statistics that are known, by the names of their files. -/
abbrev Catalogue := CStr → Option Stats

/-- What is known after an event: statistics once they are written, until the next capture to their
file begins. -/
def Catalogue.remember (m : Catalogue) (e : ArchiveEvent) (a a' : Archive) : Catalogue :=
  match Archive.written e a, a'.job with
  | some st, _ => Function.update m a.data.statfilename (some st)
  | none, some _ => Function.update m a'.data.statfilename none
  | none, none => m

/-- The reply to a query for the status of a capture of which this is known. -/
def knownReply : Option Stats → CapReply
  | some st => statsReply .ok st.wrapped
  | none => errReply .efail

/-- The file holds these statistics, or none. -/
def Recorded (p : Path) (fs : FileSystem) : Option Stats → Prop
  | some st => fs.node p = some (.file st.bytes)
  | none => Lacks p fs

namespace Archive

variable {a a' b : Archive} {e : ArchiveEvent} {events : List ArchiveEvent} {p : Path}
  {known : Option Stats} {m m' : Catalogue} {r : Option CapReply} {fs₀ fs₁ : FileSystem}
  {w : ArchiveWorld} {req : CapRequest} {hdf5 : CStr}

/-- An event, and what is known after it. -/
def nextKnown (e : ArchiveEvent) (am : Archive × Catalogue) : Option (Archive × Catalogue) :=
  (next e am.1).map fun a' => (a', am.2.remember e am.1 a')

/-- What is known of the file is in it, and while a job is in progress that is to write to it, there
is no such file. -/
structure Agrees (p : Path) (known : Option Stats) (a : Archive) : Prop where
  noLinks : NoLinks a.fs
  closed : ∀ ds, a.data.fildes ds ≠ some p
  conv : ∀ w, a.job = some w → w.ConvertsExactly ∧
    (a.data.job.core.noconvert = false → spell p ≠ a.data.hdf5filename)
  recorded : Recorded p a.fs known
  begun : ∀ w, a.job = some w → a.data.statfilename = spell p → known = none ∧ a.fs.node p = none

theorem agrees_idle {d : CapData} {fs : FileSystem} (idle : d.Idle) (noLinks : NoLinks fs)
    (recorded : Recorded p fs known) : Agrees p known ⟨d, fs, none⟩ := by
  refine ⟨noLinks, fun ds => ?_, fun w h => (by cases h), recorded, fun w h => by cases h⟩
  rw [idle ds]
  simp

theorem recorded_of_same {fs fs' : FileSystem}
    (same : ∀ data, fs'.node p = some (.file data) ↔ fs.node p = some (.file data))
    (h : Recorded p fs known) : Recorded p fs' known := by
  cases known with
  | some st => exact (same _).2 h
  | none => exact fun data hdata => h data ((same data).1 hdata)

/-- What is known at the end of a job. -/
theorem agrees_end {wrote : Bool} {st : Stats} {fs' : FileSystem} {d' : CapData}
    (agrees : a.Agrees p known) (busy : a.job = some w)
    (ends : CapData.EndsAt p a.data.statfilename wrote st a.fs fs') (idle : d'.Idle) :
    Agrees p (if a.data.statfilename = spell p ∧ wrote = true then some st else known)
      ⟨d', fs', none⟩ := by
  refine agrees_idle idle (ends.noLinks agrees.noLinks) ?_
  by_cases hstat : a.data.statfilename = spell p
  · obtain ⟨rfl, hnone⟩ := agrees.begun w busy hstat
    cases wrote with
    | true =>
      rw [if_pos ⟨hstat, rfl⟩]
      exact ends.recorded hstat rfl
    | false =>
      rw [if_neg fun h => by cases h.2]
      exact ends.lacking hstat rfl hnone
  · rw [if_neg fun h => hstat h.1]
    exact recorded_of_same (fun data => by rw [ends.same hstat]) agrees.recorded

/-- What is known at an event at which no statistics are written and that leaves a job in progress,
or none. -/
theorem remember_apply_of_none (wrote : written e a = none) (s : CStr) : m.remember e a a' s =
    if a'.job.isSome ∧ a'.data.statfilename = s then none else m s := by
  unfold Catalogue.remember
  rw [wrote]
  cases a'.job with
  | none => rw [if_neg fun h => by cases h.1]
  | some w =>
    dsimp only
    by_cases hs : a'.data.statfilename = s
    · rw [if_pos ⟨rfl, hs⟩, ← hs, Function.update_self]
    · rw [if_neg fun h => hs h.2, Function.update_of_ne (Ne.symm hs)]

theorem remember_apply_of_some {st : Stats} (wrote : written e a = some st) (s : CStr) :
    m.remember e a a' s = if a.data.statfilename = s then some st else m s := by
  unfold Catalogue.remember
  rw [wrote]
  dsimp only
  by_cases hs : a.data.statfilename = s
  · rw [if_pos hs, ← hs, Function.update_self]
  · rw [if_neg hs, Function.update_of_ne (Ne.symm hs)]

/-- What is known at an event that ends the job. -/
theorem remember_apply_of_end {wrote : Bool} {st : Stats} (ended : a'.job = none)
    (h : written e a = if wrote = true then some st else none) (s : CStr) :
    m.remember e a a' s =
      if a.data.statfilename = s ∧ wrote = true then some st else m s := by
  cases wrote with
  | true => simp only [remember_apply_of_some (h.trans (if_pos rfl)), and_true]
  | false =>
    rw [remember_apply_of_none (h.trans (if_neg (by simp))), ended, if_neg fun h => (by cases h.1),
      if_neg fun h => by cases h.2]

theorem agrees_request (inv : a.Inv) (agrees : a.Agrees p known) (plain : ∀ x ∈ p, '/' ∉ x)
    (clear : (ArchiveEvent.request w req).Clear (spell p) a)
    (h : a.handle (.request w req) = some (r, a')) :
    Agrees p (if a'.job.isSome ∧ a'.data.statfilename = spell p then none else known) a' := by
  obtain ⟨d, fs, job⟩ := a
  cases job with
  | some w' => cases h
  | none =>
    obtain ⟨out, hout, heq⟩ := Option.map_eq_some_iff.1 h
    obtain ⟨-, rfl⟩ := Prod.mk.inj heq
    obtain ⟨exactly, clear⟩ := clear
    have hat := CapData.taskCapReqHn_at (inv.idle rfl) agrees.noLinks plain exactly clear hout
    have hjob : (if out.activated = true then some w else none).isSome = out.activated := by
      cases out.activated <;> rfl
    dsimp only
    rw [hjob]
    refine ⟨hat.noLinks, hat.closed, fun w' hw => ?_, ?_, fun w' hw hstat => ?_⟩
    · dsimp only at hw
      split_ifs at hw with started
      obtain rfl := Option.some.inj hw
      refine ⟨exactly, fun hconv hp => ?_⟩
      obtain ⟨fs₁, stat, hdf5, _, _, -, names, -, hhdf5, -, converts, -⟩ :=
        CapData.taskCapReqHn_begun hout started
      exact clear ⟨fs₁, stat, hdf5, names, Or.inr ⟨converts hconv, hp.trans hhdf5⟩⟩
    · dsimp only
      by_cases hbegun : out.activated = true ∧ out.data.statfilename = spell p
      · rw [if_pos hbegun]
        intro data hdata
        rw [hat.begun hbegun.1 hbegun.2] at hdata
        cases hdata
      · rw [if_neg hbegun]
        exact recorded_of_same (hat.same fun started hstat => hbegun ⟨started, hstat⟩)
          agrees.recorded
    · dsimp only at hw hstat
      split_ifs at hw with started
      exact ⟨if_pos ⟨started, hstat⟩, hat.begun started hstat⟩

/-- What is known stays so. -/
theorem agrees_handle (inv : a.Inv) (agrees : a.Agrees p (m (spell p))) (plain : ∀ x ∈ p, '/' ∉ x)
    (clear : e.Clear (spell p) a) (h : a.handle e = some (r, a')) :
    Agrees p (m.remember e a a' (spell p)) a' := by
  obtain ⟨d, fs, job⟩ := a
  cases e with
  | request w req =>
    have hwritten : written (.request w req) ⟨d, fs, job⟩ = none := by cases job <;> rfl
    rw [remember_apply_of_none hwritten]
    exact agrees_request inv agrees plain clear h
  | frame f =>
    cases job with
    | none =>
      obtain ⟨-, rfl⟩ := Prod.mk.inj (Option.some.inj h)
      exact agrees
    | some w =>
      obtain ⟨dir, c, placed⟩ := inv.placed w rfl
      obtain ⟨exactly, conv⟩ := agrees.conv w rfl
      unfold handle at h
      dsimp only at h
      split at h
      · cases h
      next job hjob =>
        obtain ⟨-, rfl⟩ := Prod.mk.inj (Option.some.inj h)
        have hwritten : written (.frame f) ⟨d, fs, some w⟩ = none := by
          unfold written
          dsimp only
          rw [hjob]
        have hknown : (if (some w).isSome = true ∧ d.statfilename = spell p then none
            else m (spell p)) = m (spell p) := by
          split_ifs with hbegun
          · exact (agrees.begun w rfl hbegun.2).1.symm
          · rfl
        rw [remember_apply_of_none hwritten]
        dsimp only
        rw [hknown]
        refine ⟨agrees.noLinks, agrees.closed, fun w' hw => ?_, agrees.recorded, agrees.begun⟩
        obtain rfl := Option.some.inj hw
        exact ⟨exactly, fun hconv => conv ((taskCapPktHn_noconvert hjob).symm.trans hconv)⟩
      next report job hjob =>
        obtain ⟨-, rfl⟩ := Prod.mk.inj (Option.some.inj h)
        have hat := CapData.conclude_at report placed plain agrees.closed
          exactly fun hconv => conv ((taskCapPktHn_noconvert hjob).symm.trans hconv)
        have hwritten : written (.frame f) ⟨d, fs, some w⟩ =
            if (d.conclude w report job fs).1.statsWritten = true then some report.st
            else none := by
          unfold written
          dsimp only
          rw [hjob]
        rw [remember_apply_of_end rfl hwritten]
        exact agrees_end agrees rfl hat fun _ => rfl
  | restart =>
    cases job with
    | none =>
      obtain ⟨-, rfl⟩ := Prod.mk.inj (Option.some.inj h)
      exact agrees_idle (fun _ => rfl) agrees.noLinks agrees.recorded
    | some w =>
      obtain ⟨dir, c, placed⟩ := inv.placed w rfl
      unfold handle at h
      dsimp only at h
      split at h
      · cases h
      next report job hfin =>
        obtain ⟨-, rfl⟩ := Prod.mk.inj (Option.some.inj h)
        have hat := CapData.statsWrite_save_at report placed plain agrees.closed
        have hwritten : written .restart ⟨d, fs, some w⟩ =
            if (d.statsWrite w report.st (d.save report.files Dset.all fs)).1 = true then
              some report.st else none := by
          unfold written
          dsimp only
          rw [hfin]
        rw [remember_apply_of_end rfl hwritten]
        exact agrees_end agrees rfl hat fun _ => rfl
  | crash left =>
    obtain ⟨-, rfl⟩ := Prod.mk.inj (Option.some.inj h)
    have hwritten : written (.crash left) ⟨d, fs, job⟩ = none := by cases job <;> rfl
    rw [remember_apply_of_none hwritten, if_neg fun h => by cases h.1]
    refine agrees_idle (fun _ => rfl) (CapData.noLinks_save agrees.noLinks _) ?_
    exact recorded_of_same (fun data => by rw [CapData.save_other _ _ agrees.closed])
      agrees.recorded

/-- What is kept along a run with what is known. -/
structure Agreeing (p : Path) (am : Archive × Catalogue) : Prop where
  inv : am.1.Inv
  agrees : am.1.Agrees p (am.2 (spell p))

theorem agreeing_next {am am' : Archive × Catalogue} (plain : ∀ x ∈ p, '/' ∉ x)
    (agreeing : Agreeing p am) (clear : e.Clear (spell p) am.1) (h : nextKnown e am = some am') :
    Agreeing p am' := by
  obtain ⟨a', hnext, rfl⟩ := Option.map_eq_some_iff.1 h
  obtain ⟨⟨r, a'⟩, hr, rfl⟩ := Option.map_eq_some_iff.1 hnext
  exact ⟨inv_handle agreeing.inv hr, agrees_handle agreeing.inv agreeing.agrees plain clear hr⟩

theorem agrees_run (plain : ∀ x ∈ p, '/' ∉ x) (inv : a.Inv) (agrees : a.Agrees p (m (spell p)))
    (along : Runs.Along nextKnown (fun e am => e.Clear (spell p) am.1) events (a, m))
    (run : Runs.run nextKnown events (a, m) = some (b, m')) :
    b.Inv ∧ b.Agrees p (m' (spell p)) := by
  have begins : Agreeing p (a, m) := ⟨inv, agrees⟩
  have hagreeing : Agreeing p (b, m') :=
    Runs.invariant_of_along (fun _ _ _ => agreeing_next plain) begins along run
  exact ⟨hagreeing.inv, hagreeing.agrees⟩

/-- A query does not find statistics in a file that has none. -/
theorem statsGot_of_lacks {fs : FileSystem} (plain : ∀ x ∈ p, '/' ∉ x)
    (found : req.Found w.toCapWorld fs fs₁ (spell p) hdf5) (lacks : Lacks p fs) (d : CapData) :
    ((d.queried req (spell p) hdf5).statsGot w.toCapWorld fs₁).map List.length ≠ some STAT_LEN := by
  have hnames := CapData.constructFilenames_of_found d found
  have hsame := (CapData.onlyDirs_constructFilenames hnames).files
  obtain ⟨-, q, hspell, hreal, hresolve⟩ := CapData.resolves_of_found found
  obtain ⟨n, hn, -⟩ := hreal.node
  obtain rfl := spell_injective plain (fun x hx => (legal_of_node hn x hx).slash) hspell
  have hname : (d.queried req (spell p) hdf5).statfilename = spell p := rfl
  rw [CapData.statsGot, hname, openRead, hresolve]
  dsimp only
  split
  next data hdata =>
    split_ifs at hdata
    split at hdata
    next data' hnode =>
      obtain rfl := Option.some.inj (Except.ok.inj hdata)
      have hshort := lacks data' ((hsame p data').1 hnode)
      split_ifs
      · rw [Option.map_some, List.length_take]
        intro h
        have hlen := Option.some.inj h
        omega
      · simp
    · cases hdata
  · simp

/-- The status is replied as it is known, and no other statistics are. -/
theorem catalogue_answers {m₀ : Catalogue} (noLinks : NoLinks fs₀) (plain : ∀ x ∈ p, '/' ∉ x)
    (recorded : Recorded p fs₀ (m₀ (spell p)))
    (along : Runs.Along nextKnown (fun e am => e.Clear (spell p) am.1) events (start fs₀, m₀))
    (run : Runs.run nextKnown events (start fs₀, m₀) = some (b, m)) (idle : b.job = none)
    (queries : req.Queries w.toCapWorld) (status : req.capmode.toNat = TES_CAP_AUTO)
    (found : req.Found w.toCapWorld b.fs fs₁ (spell p) hdf5) (may : w.rights.read p = true)
    (ok : w.readOk = true) :
    ∃ c, b.handle (.request w req) = some (some (knownReply (m (spell p))), c) := by
  obtain ⟨-, agrees⟩ := agrees_run plain (inv_start fs₀)
    (agrees_idle (fun _ => rfl) noLinks recorded) along run
  have hreply : ∃ out, taskCapReqHn w.toCapWorld req b.data b.fs = some out ∧
      out.reply = some (knownReply (m (spell p))) := by
    have hrecorded := agrees.recorded
    rcases hknown : m (spell p) with _ | st
    all_goals rw [hknown] at hrecorded
    · have hgot := statsGot_of_lacks plain found hrecorded
        (b.data.dbgAssert !b.data.job.core.recording)
      have hnoconvert : ((b.data.dbgAssert !b.data.job.core.recording).queried req (spell p)
          hdf5).job.core.noconvert = (req.capmode.toNat != TES_CAP_CONVONLY) := rfl
      refine ⟨_, CapData.taskCapReqHn_query queries found b.data, ?_⟩
      rw [CapData.query_reply (by rw [hnoconvert, status]; rfl), if_neg hgot]
      rfl
    · obtain ⟨out, hout, -, hstatus⟩ := CapData.status_of_record queries status found hrecorded may
        ok b.data
      exact ⟨out, hout, hstatus⟩
  obtain ⟨out, hout, hstatus⟩ := hreply
  refine ⟨⟨out.data, out.fs, if out.activated then some w else none⟩, ?_⟩
  unfold handle
  rw [idle]
  dsimp only
  rw [hout, Option.map_some, hstatus]

end Archive

theorem CapData.spoils_plain {w : CapWorld} {req : CapRequest} {fs : FileSystem} {s : CStr}
    (noLinks : NoLinks fs) (base_plain : '/' ∉ req.base) (group_plain : '/' ∉ req.group)
    (h : req.Spoils w fs s) : (∃ ds, s = DATAROOT ++ dataName (joined req.base req.group) ds) ∨
      s = DATAROOT ++ converted req.base := by
  obtain ⟨fs', stat, hdf5, names, hspoils⟩ := h
  obtain ⟨rfl, rfl⟩ : stat = DATAROOT ++ joined req.base req.group ∧
      hdf5 = DATAROOT ++ converted req.base := by
    rcases names with ⟨-, names⟩ | ⟨-, names⟩ <;>
      exact namesFor_plain noLinks base_plain group_plain names
  rcases hspoils with ⟨-, ds, rfl⟩ | ⟨-, rfl⟩
  · exact Or.inl ⟨ds, by rw [dataName, List.append_assoc]⟩
  · exact Or.inr rfl

/-- A capture that is cut short when the disk has room for three bytes of its statistics. -/
def cutShorter (c : CStr) : List ArchiveEvent :=
  [.request { fineArchive with wrote := 3 } (captureOf c), .frame .tick, .restart]

/-- The statistics of two frames of a tick. -/
def tickStats : Stats := ⟨1, 0, 0, 0, 2, 0, 0, 0⟩

/-- They are forgotten when there is a capture to their file. -/
theorem Archive.catalogue_answers_forgotten : ∃ b m c,
    Runs.run nextKnown (cutShorter "a".toList)
      (start (oneFile "a".toList tickStats.bytes), fun _ => some tickStats) = some (b, m) ∧
    b.handle (.request fineArchive (statusOf "a".toList)) = some (some (errReply .efail), c) := by
  let fs₀ := oneFile "a".toList tickStats.bytes
  let p : Path := rootPath ++ ["a".toList]
  have hname : spell p = DATAROOT ++ "a".toList := by decide
  have hrun : (Runs.run nextKnown (cutShorter "a".toList) (start fs₀, fun _ => some tickStats)).map
      (fun am => (am.1.job.isNone, am.2 (spell p), (canonicalizePath fineWorld "a".toList true
        am.1.fs).1, (canonicalizePath fineWorld "a.hdf5".toList false
          (canonicalizePath fineWorld "a".toList true am.1.fs).2).1)) =
      some (true, none, .path (DATAROOT ++ "a".toList), .path (DATAROOT ++ "a.hdf5".toList)) := by
    decide +kernel
  obtain ⟨⟨b, m⟩, run, hdata⟩ := Option.map_eq_some_iff.1 hrun
  obtain ⟨hidle, hdata⟩ := Prod.mk.inj hdata
  obtain ⟨hforgotten, hdata⟩ := Prod.mk.inj hdata
  obtain ⟨hpath, hpath'⟩ := Prod.mk.inj hdata
  have hclear : ¬ (captureOf "a".toList).Spoils fineWorld fs₀ (spell p) := by
    intro h
    rw [hname] at h
    rcases CapData.spoils_plain (noLinks_oneFile _ _) (by decide) (by decide) h with ⟨ds, h⟩ | h
    · exact absurd h (by cases ds <;> decide)
    · exact absurd h (by decide)
  have along : Runs.Along nextKnown (fun e am => e.Clear (spell p) am.1) (cutShorter "a".toList)
      (start fs₀, fun _ => some tickStats) :=
    ⟨⟨⟨fun _ _ _ _ => rfl, fun _ _ h => h⟩, hclear⟩, fun _ _ => ⟨trivial, fun _ _ =>
      ⟨trivial, fun _ _ => trivial⟩⟩⟩
  have recorded : Recorded p fs₀ (some tickStats) := by
    change fs₀.node p = some (.file tickStats.bytes)
    decide +kernel
  have queries : (statusOf "a".toList).Queries fineArchive.toCapWorld :=
    ⟨by decide, Or.inr rfl, Or.inl rfl, Or.inl rfl, rfl, rfl⟩
  have found : (statusOf "a".toList).Found fineArchive.toCapWorld b.fs
      (canonicalizePath fineWorld "a.hdf5".toList false
        (canonicalizePath fineWorld "a".toList true b.fs).2).2 (spell p)
      (DATAROOT ++ "a.hdf5".toList) := by
    rw [hname]
    exact ⟨by decide, by decide, by decide, _, Prod.ext hpath rfl, Prod.ext hpath' rfl⟩
  obtain ⟨c, hc⟩ := catalogue_answers (noLinks_oneFile _ _) (by decide) recorded along run
    (Option.isNone_iff_eq_none.1 hidle) queries rfl found rfl rfl
  dsimp only at hforgotten
  rw [hforgotten] at hc
  exact ⟨b, m, c, run, hc⟩

end Tesd
