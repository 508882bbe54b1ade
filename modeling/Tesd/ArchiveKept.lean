import Tesd.Archive
import Tesd.CaptureTwin
import Tesd.JobNames
import Tesd.StreamAsserts

/-!
# Files that stay as they are

What the capture task does to a file that is none of those a request names.  Data files are opened
by removing what has their name, or by creating it; symbolic links are followed only to where there
is nothing.  So over any number of requests, captures and lives of the server, a file is changed
only by a request that names it.
-/

namespace Tesd

open Posix FileSystem

/-! ## Whether a job is converted -/

section Handlers

variable {fuel : ℕ} {env : Env} {f : Frame} {job job₁ : Job}

theorem flush_core {dss : List Dset} (h : job.flush fuel dss = some job₁) :
    job₁.core = job.core := by
  induction dss generalizing job with
  | nil =>
    obtain rfl := Option.some.inj h
    rfl
  | cons ds dss ih =>
    rw [Job.flush] at h
    split at h
    · cases h
    · have hrest := ih h
      exact hrest

theorem finish_noconvert {report : Report} (h : job.finish fuel env = some (report, job₁)) :
    job₁.core.noconvert = job.core.noconvert := by
  unfold Job.finish at h
  split at h
  · cases h
  next job₂ hflush =>
    obtain ⟨-, rfl⟩ := Prod.mk.inj (Option.some.inj h)
    have hcore := flush_core hflush
    exact (congrArg Core.noconvert hcore : job₂.core.noconvert = job.core.noconvert)

theorem indexed_noconvert (f : Frame) (c : Core) :
    (((c.arrive f).count f).indexFrame f).1.noconvert = c.noconvert := by
  obtain ⟨_, _, _, h⟩ := indexFrame_frame f ((c.arrive f).count f)
  rw [h]
  unfold Core.arrive
  split_ifs <;> rfl

theorem indexStream_noconvert (f : Frame) (start : ℕ) (fidx : Fidx) (c : Core) :
    (c.indexStream f start fidx).1.noconvert = c.noconvert := by
  obtain ⟨_, _, _, _, _, _, _, _, h⟩ := indexStream_frame f start fidx c
  rw [h]

theorem taskCapPktHn_noconvert {res : Option Report}
    (h : taskCapPktHn fuel env f job = some (res, job₁)) :
    job₁.core.noconvert = job.core.noconvert := by
  by_cases hrec : (job.core.arrive f).recording = true
  · rw [taskCapPktHn_eq fuel env f job hrec] at h
    obtain ⟨⟨failed₁, j₁⟩, h₁, h⟩ := Option.bind_eq_some_iff.1 h
    have c₁ : j₁.core.noconvert = job.core.noconvert :=
      (congrArg Core.noconvert (queueDue_core h₁)).trans (indexed_noconvert f job.core)
    obtain ⟨⟨failed₂, j₂⟩, h₂, h⟩ := Option.bind_eq_some_iff.1 h
    have c₂ : j₂.core.noconvert = job.core.noconvert :=
      (congrArg Core.noconvert (queueDue_core h₂)).trans
        ((indexStream_noconvert f _ _ j₁.core).trans c₁)
    obtain ⟨⟨failed₃, j₃⟩, h₃, h⟩ := Option.bind_eq_some_iff.1 h
    obtain ⟨⟨failed₄, j₄⟩, h₄, h⟩ := Option.bind_eq_some_iff.1 h
    have c₄ : j₄.core.noconvert = job.core.noconvert :=
      (congrArg Core.noconvert ((queue_queued h₄).1.trans (queue_queued h₃).1)).trans c₂
    split_ifs at h
    · obtain ⟨⟨report, j₅⟩, h₅, heq⟩ := Option.bind_eq_some_iff.1 h
      obtain ⟨-, rfl⟩ := Prod.mk.inj (Option.some.inj heq)
      exact (finish_noconvert h₅).trans c₄
    · obtain ⟨-, rfl⟩ := Prod.mk.inj (Option.some.inj h)
      exact c₄
  · rw [(taskCapPktHn_of_not_recording hrec h).2]

end Handlers

/-! ## The names of a request -/

namespace CapRequest

/-- The request asks for a conversion, possibly after a capture. -/
def Converts (req : CapRequest) : Prop :=
  req.capmode.toNat = TES_CAP_CONVONLY ∨ (req.Captures ∧ req.capmode.toNat ≠ TES_CAP_CAPONLY)

/-- The names of the files of a request: those of the statistics and of the converted file. -/
def Names (w : CapWorld) (req : CapRequest) (fs fs' : FileSystem) (stat hdf5 : CStr) : Prop :=
  (req.Captures ∧ CapData.NamesFor w req.base req.group false fs fs' stat hdf5) ∨
    (¬ req.Captures ∧ CapData.NamesFor w req.base req.group true fs fs' stat hdf5)

/-- The request may change the file of this name: it is that of the statistics of a capture, one of
its data files that it may overwrite, or the converted file. -/
def Writes (w : CapWorld) (req : CapRequest) (fs : FileSystem) (s : CStr) : Prop :=
  ∃ fs' stat hdf5, req.Names w fs fs' stat hdf5 ∧
    ((req.Captures ∧ (s = stat ∨ (req.ovrwtmode.toNat ≠ TES_H5_OVRWT_NONE ∧
        ∃ ds : Dset, s = stat ++ '.' :: ds.extension))) ∨
      (req.Converts ∧ s = hdf5))

end CapRequest

/-- A conversion changes no files but the converted one. -/
def CapWorld.ConvertsOne (w : CapWorld) : Prop :=
  ∀ d fs p data, spell p ≠ d.hdf5filename → fs.node p = some (.file data) →
    (w.conv d fs).2.node p = some (.file data)

namespace CapData

variable {w : CapWorld} {req : CapRequest} {d d' : CapData} {fs fs' : FileSystem} {dir p : Path}
  {c : Name} {excl : Bool} {stat hdf5 : CStr} {data : List UInt8}

/-- The names without slashes, where there are no links. -/
theorem namesFor_plain {base group : CStr} {nocapture : Bool} (noLinks : NoLinks fs)
    (base_plain : '/' ∉ base) (group_plain : '/' ∉ group)
    (names : NamesFor w base group nocapture fs fs' stat hdf5) :
    stat = DATAROOT ++ joined base group ∧ hdf5 = DATAROOT ++ converted base := by
  obtain ⟨fs₁, hstat, hhdf5⟩ := names.paths
  rw [← joined] at hstat
  rw [← converted] at hhdf5
  obtain ⟨hs, rfl, -⟩ := canonicalizePath_plain noLinks
    (slash_notMem_joined base_plain group_plain) hstat
  obtain ⟨hc, -, hshort⟩ := canonicalizePath_plain noLinks
    (slash_notMem_take (slash_notMem_converted base_plain)) hhdf5
  have hcut : NAME_MAX < PATH_MAX - 1 := by decide
  rw [eq_take_of_short hcut hshort] at hc
  exact ⟨hs, hc⟩

/-- What a request without slashes in its names writes to, where there are no links. -/
theorem writes_plain {s : CStr} (noLinks : NoLinks fs) (base_plain : '/' ∉ req.base)
    (group_plain : '/' ∉ req.group) (h : req.Writes w fs s) :
    s = DATAROOT ++ joined req.base req.group ∨
      (∃ ds, s = DATAROOT ++ dataName (joined req.base req.group) ds) ∨
      s = DATAROOT ++ converted req.base := by
  obtain ⟨fs', stat, hdf5, names, hwrites⟩ := h
  obtain ⟨hstat, hhdf5⟩ : stat = DATAROOT ++ joined req.base req.group ∧
      hdf5 = DATAROOT ++ converted req.base := by
    rcases names with ⟨-, names⟩ | ⟨-, names⟩ <;>
      exact namesFor_plain noLinks base_plain group_plain names
  rcases hwrites with ⟨-, rfl | ⟨-, ds, rfl⟩⟩ | ⟨-, rfl⟩
  · exact Or.inl hstat
  · refine Or.inr (Or.inl ⟨ds, ?_⟩)
    rw [hstat, dataName, List.append_assoc]
  · exact Or.inr (Or.inr hhdf5)

theorem askedTicks_eq_zero_iff (d : CapData) :
    (d.recv req).askedTicks = 0 ↔ ¬ req.Captures := by
  constructor
  · exact fun h capture => minTicks_ne_zero d capture h
  · intro h
    rw [CapRequest.Captures, not_or, not_not, not_not] at h
    have hticks : (d.recv req).job.core.minTicks = 0 := congrArg UInt64.toNat h.1
    have hevents : (d.recv req).job.core.minEvents = 0 := congrArg UInt64.toNat h.2
    rw [askedTicks, if_neg fun hne => hne.1 hevents, hticks]

/-- The names that the handler constructs are those of the request. -/
theorem names_of_constructFilenames
    (h : (d.recv req).checkedReq.constructFilenames w fs = some (.ok, d', fs')) :
    ∃ stat hdf5, req.Names w fs fs' stat hdf5 ∧ d' = (d.recv req).checkedReq.named stat hdf5 := by
  obtain ⟨stat, hdf5, names, rfl⟩ := constructFilenames_ok_iff.1 h
  refine ⟨stat, hdf5, ?_, rfl⟩
  have hnames : NamesFor w req.base req.group (decide ((d.recv req).askedTicks = 0)) fs fs' stat
    hdf5 := names
  by_cases capture : req.Captures
  · rw [decide_eq_false fun h => (askedTicks_eq_zero_iff d).1 h capture] at hnames
    exact Or.inl ⟨capture, hnames⟩
  · rw [decide_eq_true ((askedTicks_eq_zero_iff d).2 capture)] at hnames
    exact Or.inr ⟨capture, hnames⟩

/-- The statistics have a place, and the data files are next to them. -/
theorem placed_of_namesFor {base group : CStr} {nocapture : Bool}
    (names : NamesFor w base group nocapture fs fs' stat hdf5) (d : CapData) :
    ∃ dir c, Placed w (d.named stat hdf5) fs' dir c := by
  obtain ⟨fs₁, hstat, hhdf5⟩ := names.paths
  have hroom := names.room
  obtain ⟨dir, c, hspell, hne, hslash, hreal, hdir⟩ := entry_of_canonicalizePath hstat (by omega)
  have hkeeps := keeps_canonicalizePath w ((base ++ ".hdf5".toList).take (PATH_MAX - 1)) false fs₁
  rw [hhdf5] at hkeeps
  exact ⟨dir, c, hspell, fun _ => rfl, hne, hslash, hkeeps.real hreal, hkeeps dir _ hdir⟩

/-! ## Opening files -/

/-- A file that is opened has been created, or made again in the place of an entry of its name. -/
theorem openByName_new (e : Entry fs w.rights dir c) {contents : List UInt8}
    (h : (openByName w excl (spell (dir ++ [c])) fs).1 = some (p, contents)) :
    fs.node p = none ∨ excl = false ∧ p = dir ++ [c] := by
  cases excl with
  | true =>
    rw [openByName_direct (Or.inl rfl), if_pos rfl] at h
    rcases hopen : fs.openExcl w.rights (spell (dir ++ [c])) with ⟨err | q, fs'⟩
    · rw [hopen] at h
      cases h
    · rw [hopen] at h
      obtain ⟨rfl, -⟩ := Prod.mk.inj (Option.some.inj h)
      exact Or.inl (create_new hopen)
  | false =>
    cases access : fs.accessOk w.rights (spell (dir ++ [c])) with
    | false =>
      rw [openByName_direct (Or.inr access), if_neg (by simp)] at h
      rcases hopen : fs.openCreat w.rights (spell (dir ++ [c])) with ⟨err | q, fs'⟩
      · rw [hopen] at h
        cases h
      · rw [hopen] at h
        obtain ⟨rfl, -⟩ := Prod.mk.inj (Option.some.inj h)
        exact Or.inl (openCreat_created access hopen).1
    | true =>
      by_cases hmay : Lookable w.rights dir c ∧ w.rights.remove (dir ++ [c]) = true ∧
        fs.node (dir ++ [c]) ≠ none ∧ fs.node (dir ++ [c]) ≠ some .dir
      · obtain ⟨look, remove, hsome, hdir⟩ := hmay
        obtain ⟨n, there⟩ := Option.ne_none_iff_exists'.1 hsome
        rcases openByName_removed access e look there (fun hn => hdir (by rw [there, hn])) remove
          with ⟨-, hopen, -⟩ | ⟨-, hopen, -⟩
        · rw [hopen] at h
          exact Or.inr ⟨rfl, (Prod.mk.inj (Option.some.inj h)).1.symm⟩
        · rw [hopen] at h
          cases h
      · rw [openByName_denied access e hmay] at h
        cases h

/-- Opening a file leaves the files of other names alone, and without overwriting all files. -/
theorem openByName_file (e : Entry fs w.rights dir c) (file : fs.node p = some (.file data))
    (other : excl = true ∨ p ≠ dir ++ [c]) :
    (openByName w excl (spell (dir ++ [c])) fs).2.node p = some (.file data) := by
  rcases openByName_outcomes w excl e with h | ⟨-, h⟩
  · exact h p _ file
  · rcases other with rfl | hne
    · rw [openByName_direct (Or.inl rfl), opened_tree, if_pos rfl]
      exact keeps_create fs w.rights (.file []) _ p _ file
    · rcases h with ⟨-, h⟩ | ⟨-, h⟩ <;> rw [h, Function.update_of_ne hne, file]

/-- What opening the files of a job leaves of the names and of what was asked. -/
structure SameNames (d d' : CapData) : Prop where
  statfilename : d'.statfilename = d.statfilename
  hdf5filename : d'.hdf5filename = d.hdf5filename
  filename : d'.filename = d.filename
  basefname : d'.basefname = d.basefname
  core : d'.job.core = d.job.core

theorem sameNames_openAll (w : CapWorld) (excl : Bool) (dss : List Dset) (d : CapData)
    (fs : FileSystem) : SameNames d (d.openAll w excl dss fs).2.1 := by
  induction dss generalizing d fs with
  | nil => exact ⟨rfl, rfl, rfl, rfl, rfl⟩
  | cons ds dss ih =>
    rw [openAll]
    obtain ⟨c, -, ⟨fs', hfail⟩ | ⟨p, contents, fs', hopen⟩⟩ := openAiobuf_cases w excl ds d fs
    · rw [hfail]
      exact ⟨rfl, rfl, rfl, rfl, rfl⟩
    · rw [hopen]
      obtain ⟨h₁, h₂, h₃, h₄, h₅⟩ := ih ((d.dbgAssert c).withFile ds p (w.sched ds) contents) fs'
      exact ⟨h₁, h₂, h₃, h₄, h₅⟩

/-- Opening files keeps the directories. -/
theorem dirs_openAll (excl : Bool) (dss : List Dset)
    (e : ∀ ds, Entry fs w.rights dir (dataName c ds))
    (names : ∀ ds, d.filename ds = spell (dir ++ [dataName c ds]))
    (isDir : fs.node p = some .dir) : (d.openAll w excl dss fs).2.2.node p = some .dir := by
  induction dss generalizing d fs with
  | nil => exact isDir
  | cons ds dss ih =>
    rw [openAll]
    obtain ⟨b, -, heq⟩ := openAiobuf_eq w excl ds d fs
    have hdirs : ∀ q, fs.node q = some .dir →
        (openByName w excl (spell (dir ++ [dataName c ds])) fs).2.node q = some .dir :=
      fun _ => dirs_openByName w excl (e ds)
    rw [names] at heq
    rw [heq]
    rcases hopen : openByName w excl (spell (dir ++ [dataName c ds])) fs with
      ⟨_ | ⟨q, contents⟩, fs'⟩
    all_goals rw [hopen] at hdirs
    · exact hdirs p isDir
    · exact ih (d := (d.dbgAssert b).withFile ds q (w.sched ds) contents)
        (fun ds' => entry_of_dirs hdirs (e ds')) names (hdirs p isDir)

/-- A file stays, and is not opened, if it has none of the names or is not overwritten. -/
theorem openAll_file (excl : Bool) (dss : List Dset)
    (e : ∀ ds, Entry fs w.rights dir (dataName c ds))
    (names : ∀ ds, d.filename ds = spell (dir ++ [dataName c ds]))
    (file : fs.node p = some (.file data)) (closed : ∀ ds, d.fildes ds ≠ some p)
    (other : excl = true ∨ ∀ ds, p ≠ dir ++ [dataName c ds]) :
    (d.openAll w excl dss fs).2.2.node p = some (.file data) ∧
      ∀ ds, (d.openAll w excl dss fs).2.1.fildes ds ≠ some p := by
  induction dss generalizing d fs with
  | nil => exact ⟨file, closed⟩
  | cons ds dss ih =>
    rw [openAll]
    obtain ⟨b, -, heq⟩ := openAiobuf_eq w excl ds d fs
    have hdirs : ∀ q, fs.node q = some .dir →
        (openByName w excl (spell (dir ++ [dataName c ds])) fs).2.node q = some .dir :=
      fun _ => dirs_openByName w excl (e ds)
    have hfile := openByName_file (w := w) (e ds) file (other.imp_right fun h => h ds)
    rw [names] at heq
    rw [heq]
    rcases hopen : openByName w excl (spell (dir ++ [dataName c ds])) fs with
      ⟨_ | ⟨q, contents⟩, fs'⟩
    all_goals rw [hopen] at hdirs hfile
    · exact ⟨hfile, closed⟩
    · have hq : q ≠ p := by
        rintro rfl
        rcases openByName_new (e ds) (congrArg Prod.fst hopen) with hnone | ⟨hexcl, hq⟩
        · rw [file] at hnone
          cases hnone
        · rcases other with h | h
          · rw [h] at hexcl
            cases hexcl
          · exact h ds hq
      refine ih (d := (d.dbgAssert b).withFile ds q (w.sched ds) contents)
        (fun ds' => entry_of_dirs hdirs (e ds')) names hfile fun ds' => ?_
      by_cases hds : ds' = ds
      · subst hds
        rw [withFile_fildes_self]
        exact fun h => hq (Option.some.inj h)
      · rw [withFile_fildes_of_ne hds]
        exact closed ds'

/-! ## Requests -/

theorem unlink_other (real : fs.Real w.rights dir) (isDir : fs.node dir = some .dir)
    (nonempty : c ≠ []) (slash : '/' ∉ c) (other : p ≠ dir ++ [c]) :
    (fs.unlink w.rights (spell (dir ++ [c]))).2.node p = fs.node p := by
  rcases unlink_cases fs w.rights (spell (dir ++ [c])) with
    ⟨e, he⟩ | ⟨dir', c', hplace, -, -, -, hnode⟩
  · rw [he]
  · rw [parent_spell real isDir nonempty slash] at hplace
    split_ifs at hplace
    obtain ⟨rfl, rfl⟩ := Prod.mk.inj (Except.ok.inj hplace)
    rw [hnode, Function.update_of_ne other]

/-- The start of a capture: the data files are opened and the file of the statistics is removed, and
the job begins, or else what has been opened is closed. -/
theorem start_cases (w : CapWorld) (d : CapData) (fs : FileSystem) :
    ∃ rc d₁ fs₁, d.openFiles w d.nooverwrite fs = (rc, d₁, fs₁) ∧
      ((∃ fs₂, d.start w fs = ⟨d₁, fs₂, none, true⟩ ∧ rc = .ok ∧
          (fs₁.accessOk w.rights d₁.statfilename = false ∧ fs₂ = fs₁ ∨
            fs₁.unlink w.rights d₁.statfilename = (none, fs₂))) ∨
        ∃ reply, d.start w fs = ⟨(d₁.free.closeFiles Dset.all fs₁).1,
          (d₁.free.closeFiles Dset.all fs₁).2, some reply, false⟩) := by
  unfold start
  rcases d.openFiles w d.nooverwrite fs with ⟨rc, d₁, fs₁⟩
  refine ⟨rc, d₁, fs₁, rfl, ?_⟩
  dsimp only
  split
  next h =>
    obtain ⟨rfl, rfl, rfl⟩ : rc = .ok ∧ d₁ = _ ∧ fs₁ = _ := by simpa only [Prod.mk.injEq] using h
    cases access : fs₁.accessOk w.rights d₁.statfilename with
    | false => exact Or.inl ⟨fs₁, rfl, rfl, Or.inl ⟨rfl, rfl⟩⟩
    | true =>
      have herror : (fs₁.unlink w.rights d₁.statfilename).1 ≠ none →
          (fs₁.unlink w.rights d₁.statfilename).2 = fs₁ := unlink_error
      rcases hun : fs₁.unlink w.rights d₁.statfilename with ⟨_ | err, fs₂⟩
      · exact Or.inl ⟨fs₂, rfl, rfl, Or.inr rfl⟩
      · rw [hun] at herror
        obtain rfl : fs₂ = fs₁ := herror (by simp)
        exact Or.inr ⟨_, rfl⟩
  next rc' d₁' fs₁' hno h =>
    obtain ⟨rfl, rfl, rfl⟩ : rc = rc' ∧ d₁ = d₁' ∧ fs₁ = fs₁' := by
      simpa only [Prod.mk.injEq] using h
    exact Or.inr ⟨_, rfl⟩

/-- The tree and the data once the data files are open: the directories are there, and so are the
files that none of the job's has the name of. -/
theorem openFiles_spares (placed : Placed w d fs dir c) {rc : CapStatus} {d₁ : CapData}
    {fs₁ : FileSystem} (h : d.openFiles w d.nooverwrite fs = (rc, d₁, fs₁)) :
    SameNames d d₁ ∧ Placed w d₁ fs₁ dir c ∧
      ∀ p data, fs.node p = some (.file data) → (∀ ds, d.fildes ds ≠ some p) →
        (d.nooverwrite = true ∨ ∀ ds, p ≠ dir ++ [dataName c ds]) →
        fs₁.node p = some (.file data) ∧ ∀ ds, d₁.fildes ds ≠ some p := by
  obtain ⟨b, heq⟩ := openFiles_eq w d.nooverwrite d fs
  rw [h] at heq
  have hentry := entry_of_placed placed
  have hnames : ∀ ds, (d.dbgAssert b).filename ds = spell (dir ++ [dataName c ds]) := placed.names
  have same := sameNames_openAll w d.nooverwrite Dset.all (d.dbgAssert b) fs
  have hdirs := fun q => dirs_openAll (p := q) d.nooverwrite Dset.all hentry hnames
  have hfile := fun p data (file : fs.node p = some (.file data)) =>
    openAll_file d.nooverwrite Dset.all hentry hnames file
  rw [← heq] at same hdirs hfile
  obtain ⟨h₁, h₂, h₃, h₄, h₅⟩ := same
  refine ⟨⟨h₁, h₂, h₃, h₄, h₅⟩, ?_, hfile⟩
  refine ⟨h₁.trans placed.stat, fun ds => ?_, placed.nonempty, placed.slash,
    real_of_dirs hdirs placed.real placed.isDir, hdirs dir placed.isDir⟩
  exact (congrFun h₃ ds).trans ((placed.filename ds).trans
    (congrArg (· ++ '.' :: ds.extension) h₁.symm))

/-- The start of a capture leaves a file alone that has none of the names, or only that of a data
file and is not overwritten. -/
theorem start_file (placed : Placed w d fs dir c) (idle : d.Idle)
    (file : fs.node p = some (.file data)) (stat : p ≠ dir ++ [c])
    (other : d.nooverwrite = true ∨ ∀ ds, p ≠ dir ++ [dataName c ds]) :
    (d.start w fs).fs.node p = some (.file data) ∧
      ∀ ds, (d.start w fs).data.fildes ds ≠ some p := by
  obtain ⟨rc, d₁, fs₁, hopen, hstart⟩ := start_cases w d fs
  obtain ⟨-, placed₁, hspares⟩ := openFiles_spares placed hopen
  obtain ⟨hfile, hclosed⟩ := hspares p data file (fun ds => by rw [idle ds]; simp) other
  rcases hstart with ⟨fs₂, h, -, hun⟩ | ⟨reply, h⟩
  · rw [h]
    refine ⟨?_, hclosed⟩
    rcases hun with ⟨-, rfl⟩ | hun
    · exact hfile
    · have hother := unlink_other (w := w) placed₁.real placed₁.isDir placed₁.nonempty
        placed₁.slash stat
      rw [← placed₁.stat, hun] at hother
      exact hother.trans hfile
  · rw [h]
    refine ⟨(closeFiles_node (d := d₁.free) hclosed).trans hfile, fun ds => ?_⟩
    rw [idle_closeFiles d₁.free fs₁ ds]
    simp

/-- A capture that has begun has its names, and a place for its statistics. -/
theorem start_placed (placed : Placed w d fs dir c) (h : (d.start w fs).activated = true) :
    SameNames d (d.start w fs).data ∧ Placed w (d.start w fs).data (d.start w fs).fs dir c := by
  obtain ⟨rc, d₁, fs₁, hopen, hstart⟩ := start_cases w d fs
  obtain ⟨same, placed₁, -⟩ := openFiles_spares placed hopen
  rcases hstart with ⟨fs₂, hbegun, -, hun⟩ | ⟨reply, hrefused⟩
  · rw [hbegun]
    have hdirs : ∀ q, fs₁.node q = some .dir → fs₂.node q = some .dir := by
      intro q hq
      rcases hun with ⟨-, rfl⟩ | hun
      · exact hq
      · have hdir := dirs_unlink fs₁ w.rights d₁.statfilename hq
        rwa [hun] at hdir
    exact ⟨same, placed₁.stat, placed₁.filename, placed₁.nonempty, placed₁.slash,
      real_of_dirs hdirs placed₁.real placed₁.isDir, hdirs dir placed₁.isDir⟩
  · rw [hrefused] at h
    cases h

theorem query_fs (w : CapWorld) (d : CapData) (fs : FileSystem) :
    (d.query w fs).fs = if d.job.core.noconvert = true then fs else (w.conv d fs).2 := by
  unfold query
  cases d.job.core.noconvert with
  | true =>
    rw [if_pos rfl, if_pos rfl]
    dsimp only
    rw [if_neg (fun h => h rfl)]
    split <;> rfl
  | false =>
    rw [if_neg (by simp), if_neg (by simp)]
    dsimp only
    split_ifs
    · rfl
    · split <;> rfl

theorem converts_of_checkedReq
    (h : (d.recv req).checkedReq.job.core.noconvert = false) : req.Converts := by
  have hnoconvert : (decide ((d.recv req).askedTicks = 0) &&
    req.capmode.toNat != TES_CAP_CONVONLY || req.capmode.toNat == TES_CAP_CAPONLY) = false := h
  rw [Bool.or_eq_false_iff, beq_eq_false_iff_ne] at hnoconvert
  obtain ⟨hmode, hcaponly⟩ := hnoconvert
  by_cases capture : req.Captures
  · exact Or.inr ⟨capture, hcaponly⟩
  · rw [decide_eq_true ((askedTicks_eq_zero_iff d).2 capture), Bool.true_and] at hmode
    exact Or.inl (by simpa using hmode)

/-- Nothing but directories has been made. -/
structure OnlyDirs (fs fs' : FileSystem) : Prop where
  keeps : fs.Keeps fs'
  files : SameFiles fs fs'
  noLinks : NoLinks fs → NoLinks fs'

theorem onlyDirs_refl (fs : FileSystem) : OnlyDirs fs fs :=
  ⟨keeps_refl fs, sameFiles_refl fs, id⟩

theorem OnlyDirs.trans {fs'' : FileSystem} (h : OnlyDirs fs fs') (h' : OnlyDirs fs' fs'') :
    OnlyDirs fs fs'' :=
  ⟨h.keeps.trans h'.keeps, h.files.trans h'.files, fun noLinks => h'.noLinks (h.noLinks noLinks)⟩

theorem noLinks_create {n : Node} (noLinks : NoLinks fs) (notLink : ∀ target, n ≠ .symlink target)
    (rights : Rights) (place : Except Posix.Errno (Path × Name)) :
    NoLinks (fs.create rights n place).2 := by
  rcases create_place fs rights n place with ⟨err, h⟩ | ⟨d, c, h, -, -⟩
  · rw [h]
    exact noLinks
  · rw [h]
    exact noLinks_enter noLinks notLink

theorem onlyDirs_constructFilenames {rc : CapStatus}
    (h : d.constructFilenames w fs = some (rc, d', fs')) : OnlyDirs fs fs' :=
  (constructFilenames_rel onlyDirs_refl OnlyDirs.trans (fun fs s => ⟨keeps_mkdir fs w.rights s,
    sameFiles_create_dir fs w.rights _, fun noLinks =>
      noLinks_create noLinks (fun _ h => by cases h) w.rights _⟩) h).1

/-- A request is refused, with at most directories made, or it has names for its files and captures
or asks in their tree. -/
theorem taskCapReqHn_does {out : CapOutcome} (h : taskCapReqHn w req d fs = some out) :
    (OnlyDirs fs out.fs ∧ out.activated = false) ∨
      ∃ (d₀ : CapData) (fs₁ : FileSystem) (stat hdf5 : CStr), d₀.fildes = d.fildes ∧
        OnlyDirs fs fs₁ ∧ req.Names w fs fs₁ stat hdf5 ∧ (d₀.recv req).ReqOk w ∧
        ((req.Captures ∧ out = ((d₀.recv req).checkedReq.named stat hdf5).start w fs₁) ∨
          (¬ req.Captures ∧ out = ((d₀.recv req).checkedReq.named stat hdf5).query w fs₁)) := by
  rcases taskCapReqHn_cases h with ⟨rc, d₁, -, -, rfl⟩ | ⟨d₁, hchecks, hrest⟩
  · exact Or.inl ⟨onlyDirs_refl fs, rfl⟩
  obtain ⟨ok, rfl⟩ := isReqValid_eq_ok_iff.1 hchecks
  rcases hrest with ⟨rc, d₂, fs₁, hnames, -, rfl⟩ | ⟨d₂, fs₁, hnames, rfl⟩
  · exact Or.inl ⟨onlyDirs_constructFilenames hnames, rfl⟩
  have honly := onlyDirs_constructFilenames hnames
  obtain ⟨stat, hdf5, names, rfl⟩ := names_of_constructFilenames hnames
  refine Or.inr ⟨d.dbgAssert !d.job.core.recording, fs₁, stat, hdf5, rfl, honly, names, ok, ?_⟩
  have hquery : (((d.dbgAssert !d.job.core.recording).recv req).checkedReq.named stat
      hdf5).nocapture = decide (((d.dbgAssert !d.job.core.recording).recv req).askedTicks = 0) :=
    rfl
  by_cases capture : req.Captures
  · rw [hquery, decide_eq_false fun hzero => (askedTicks_eq_zero_iff _).1 hzero capture,
      if_neg (by simp)]
    exact Or.inl ⟨capture, rfl⟩
  · rw [hquery, decide_eq_true ((askedTicks_eq_zero_iff _).2 capture), if_pos rfl]
    exact Or.inr ⟨capture, rfl⟩

theorem placed_of_names (d₀ : CapData) (names : req.Names w fs fs' stat hdf5) :
    ∃ dir c, Placed w ((d₀.recv req).checkedReq.named stat hdf5) fs' dir c := by
  rcases names with ⟨-, names⟩ | ⟨-, names⟩ <;> exact placed_of_namesFor names _

/-- A request leaves a file alone that it does not write to. -/
theorem taskCapReqHn_file {out : CapOutcome} (idle : d.Idle)
    (h : taskCapReqHn w req d fs = some out) (file : fs.node p = some (.file data))
    (spared : ¬ req.Writes w fs (spell p)) (conv : w.ConvertsOne) :
    out.fs.node p = some (.file data) ∧ ∀ ds, out.data.fildes ds ≠ some p := by
  have hclosed : out.activated = false → ∀ ds, out.data.fildes ds ≠ some p := by
    intro hout ds
    rw [idle_of_taskCapReqHn idle h hout ds]
    simp
  rcases taskCapReqHn_does h with ⟨honly, hout⟩ |
    ⟨d₀, fs₁, stat, hdf5, hfildes, honly, names, -, ⟨capture, rfl⟩ | ⟨capture, rfl⟩⟩
  · exact ⟨honly.keeps p _ file, hclosed hout⟩
  · obtain ⟨dir, c, placed⟩ := placed_of_names d₀ names
    have idle₀ : ((d₀.recv req).checkedReq.named stat hdf5).Idle := fun ds =>
      (congrFun hfildes ds).trans (idle ds)
    refine start_file placed idle₀ (honly.keeps p _ file) ?_ ?_
    · rintro rfl
      exact spared ⟨fs₁, stat, hdf5, names, Or.inl ⟨capture, Or.inl placed.stat.symm⟩⟩
    · by_cases mode : req.ovrwtmode.toNat = TES_H5_OVRWT_NONE
      · exact Or.inl (beq_iff_eq.2 mode)
      · refine Or.inr fun ds => ?_
        rintro rfl
        exact spared ⟨fs₁, stat, hdf5, names, Or.inl ⟨capture, Or.inr ⟨mode, ds,
          (placed.names ds).symm⟩⟩⟩
  · refine ⟨?_, hclosed (query_inactive w _ fs₁)⟩
    rw [query_fs]
    split_ifs with hconv
    · exact honly.keeps p _ file
    · refine conv _ fs₁ p data (fun hp => ?_) (honly.keeps p _ file)
      rw [Bool.not_eq_true] at hconv
      exact spared ⟨fs₁, stat, hdf5, names, Or.inr ⟨converts_of_checkedReq hconv, hp⟩⟩

/-- What is known of a job that has begun: its statistics have a place, and if it is converted, the
request asks for that. -/
theorem taskCapReqHn_begun {out : CapOutcome} (h : taskCapReqHn w req d fs = some out)
    (started : out.activated = true) :
    ∃ fs₁ stat hdf5 dir c, req.Captures ∧ req.Names w fs fs₁ stat hdf5 ∧
      out.data.statfilename = stat ∧ out.data.hdf5filename = hdf5 ∧ out.data.basefname ≠ none ∧
      (out.data.job.core.noconvert = false → req.Converts) ∧ Placed w out.data out.fs dir c := by
  rcases taskCapReqHn_does h with ⟨-, hout⟩ |
    ⟨d₀, fs₁, stat, hdf5, -, -, names, ok, ⟨capture, rfl⟩ | ⟨-, rfl⟩⟩
  · rw [hout] at started
    cases started
  · obtain ⟨dir, c, placed⟩ := placed_of_names d₀ names
    obtain ⟨same, placed'⟩ := start_placed placed started
    refine ⟨fs₁, stat, hdf5, dir, c, capture, names, same.statfilename, same.hdf5filename, ?_, ?_,
      placed'⟩
    · rw [same.basefname]
      exact ok.base
    · intro hconv
      rw [same.core] at hconv
      exact converts_of_checkedReq (d := d₀) hconv
  · rw [query_inactive] at started
    cases started

/-! ## The end of a job -/

theorem save_other (files : Dset → List UInt8) (dss : List Dset)
    (h : ∀ ds, d.fildes ds ≠ some p) : (d.save files dss fs).node p = fs.node p := by
  induction dss generalizing fs with
  | nil => rfl
  | cons ds dss ih =>
    rw [save, ih]
    split
    · rfl
    next q hq =>
      refine put_of_ne (files ds) ?_
      rintro rfl
      exact h ds hq

/-- Writing the statistics changes nothing but the file that it creates for them. -/
theorem statsWrite_file (w : ArchiveWorld) (st : Stats) (d : CapData)
    (file : fs.node p = some (.file data)) :
    (d.statsWrite w st fs).2.node p = some (.file data) := by
  have hkeeps := keeps_create fs w.rights (.file []) (fs.parent w.rights d.statfilename) p _ file
  unfold statsWrite
  rcases hopen : fs.openExcl w.rights d.statfilename with ⟨err | q, fs'⟩
  all_goals
    rw [openExcl] at hopen
    rw [hopen] at hkeeps
  · exact hkeeps
  · refine (put_of_ne _ ?_).trans hkeeps
    rintro rfl
    have hnone := create_new hopen
    rw [file] at hnone
    cases hnone

/-- The end of a job leaves a file alone that it does not have open and that is not the converted
one. -/
theorem conclude_file {w : ArchiveWorld} (report : Report) {job : Job}
    (file : fs.node p = some (.file data)) (closed : ∀ ds, d.fildes ds ≠ some p)
    (one : w.ConvertsOne) (conv : job.core.noconvert = false → spell p ≠ d.hdf5filename) :
    (d.conclude w report job fs).2.node p = some (.file data) := by
  have hsave := (save_other report.files Dset.all closed).trans file
  have hwrite := statsWrite_file w report.st d hsave
  unfold conclude
  dsimp only
  split_ifs with hdo
  · exact one d _ p data (conv hdo.2) hwrite
  · exact hwrite

/-- A request that is answered at once is done with. -/
theorem basefname_of_answered {out : CapOutcome} (h : taskCapReqHn w req d fs = some out)
    (answered : out.activated = false) : out.data.basefname = none := by
  have hquery : ∀ d₂ fs₁, (query w d₂ fs₁).data.basefname = none := by
    intro d₂ fs₁
    unfold query
    generalize (if d₂.job.core.noconvert = true then (CapStatus.ok, fs₁) else w.conv d₂ fs₁) = q
    dsimp only
    split_ifs
    · rfl
    · split <;> rfl
  rcases taskCapReqHn_cases h with ⟨rc, d₁, -, -, rfl⟩ | ⟨d₁, -, hrest⟩
  · rfl
  rcases hrest with ⟨rc, d₂, fs₁, -, -, rfl⟩ | ⟨d₂, fs₁, -, rfl⟩
  · rfl
  split_ifs at answered ⊢
  · exact hquery d₂ fs₁
  · obtain ⟨rc, d₃, fs₃, -, ⟨fs₄, hbegun, -, -⟩ | ⟨reply, hrefused⟩⟩ := start_cases w d₂ fs₁
    · rw [hbegun] at answered
      cases answered
    · rw [hrefused]
      exact (closeFiles_names Dset.all d₃.free fs₃).1

end CapData

/-- The event is not a request that may change the file of this name. -/
def ArchiveEvent.Leaves (s : CStr) (e : ArchiveEvent) (a : Archive) : Prop :=
  match e with
  | .request w req => w.ConvertsOne ∧ ¬ req.Writes w.toCapWorld a.fs s
  | _ => True

namespace Archive

variable {a a' b : Archive} {e : ArchiveEvent} {before events : List ArchiveEvent} {p : Path}
  {data : List UInt8} {r : Option CapReply} {fs : FileSystem}

/-! ## What holds between events -/

/-- Files are open only while a job is in progress, which has a request, and a place for its
statistics. -/
structure Inv (a : Archive) : Prop where
  idle : a.job = none → a.data.Idle
  asked : a.data.basefname = none ↔ a.job = none
  placed : ∀ w, a.job = some w → ∃ dir c, CapData.Placed w.toCapWorld a.data a.fs dir c

theorem inv_idle {d : CapData} (idle : d.Idle) (answered : d.basefname = none) (fs : FileSystem) :
    Inv ⟨d, fs, none⟩ :=
  ⟨fun _ => idle, iff_of_true answered rfl, fun w h => by cases h⟩

theorem inv_start (fs : FileSystem) : (start fs).Inv := inv_idle (fun _ => rfl) rfl fs

theorem inv_handle (inv : a.Inv) (h : a.handle e = some (r, a')) : a'.Inv := by
  obtain ⟨d, fs, job⟩ := a
  cases e with
  | request w req =>
    cases job with
    | some w' => cases h
    | none =>
      obtain ⟨out, hout, heq⟩ := Option.map_eq_some_iff.1 h
      obtain ⟨-, rfl⟩ := Prod.mk.inj heq
      cases started : out.activated with
      | true =>
        obtain ⟨_, _, _, dir, c, -, -, -, -, hasked, -, placed⟩ :=
          CapData.taskCapReqHn_begun hout started
        refine ⟨fun h => (by cases h), iff_of_false hasked (by simp), fun w' h => ?_⟩
        obtain rfl := Option.some.inj h
        exact ⟨dir, c, placed⟩
      | false =>
        exact inv_idle (idle_of_taskCapReqHn (inv.idle rfl) hout started)
          (CapData.basefname_of_answered hout started) out.fs
  | frame f =>
    cases job with
    | none =>
      obtain ⟨-, rfl⟩ := Prod.mk.inj (Option.some.inj h)
      exact inv
    | some w =>
      rcases handle_frame_cases rfl h with ⟨job, -, -, rfl⟩ | ⟨report, job, fs', -, -, rfl⟩
      · refine ⟨fun h => (by cases h), inv.asked, fun w' h => ?_⟩
        obtain ⟨dir, c, placed⟩ := inv.placed w' h
        obtain ⟨h₁, h₂, h₃, h₄, h₅, h₆⟩ := placed
        exact ⟨dir, c, h₁, h₂, h₃, h₄, h₅, h₆⟩
      · exact inv_idle (fun _ => rfl) rfl fs'
  | restart =>
    cases job with
    | none =>
      obtain ⟨-, rfl⟩ := Prod.mk.inj (Option.some.inj h)
      exact inv_start fs
    | some w =>
      unfold handle at h
      dsimp only at h
      split at h
      · cases h
      · obtain ⟨-, rfl⟩ := Prod.mk.inj (Option.some.inj h)
        exact inv_start _
  | crash left =>
    obtain ⟨-, rfl⟩ := Prod.mk.inj (Option.some.inj h)
    exact inv_start _

theorem inv_next (inv : a.Inv) (h : next e a = some a') : a'.Inv := by
  obtain ⟨⟨r, a'⟩, hr, rfl⟩ := Option.map_eq_some_iff.1 h
  exact inv_handle inv hr

/-- What is reached from the start of a server. -/
theorem inv_run (h : Runs.run next events (start fs) = some a) : a.Inv :=
  Runs.invariant (fun _ _ _ => inv_next) (inv_start fs) h

/-- The job in progress is the one that was, or the one that the event starts. -/
theorem job_handle {w : ArchiveWorld} (h : a.handle e = some (r, a')) (busy : a'.job = some w) :
    a.job = some w ∨ ∃ req, e = .request w req := by
  obtain ⟨d, fs, job⟩ := a
  cases e with
  | request w' req =>
    cases job with
    | some w' => cases h
    | none =>
      obtain ⟨out, -, heq⟩ := Option.map_eq_some_iff.1 h
      obtain ⟨-, rfl⟩ := Prod.mk.inj heq
      dsimp only at busy
      split_ifs at busy
      obtain rfl := Option.some.inj busy
      exact Or.inr ⟨req, rfl⟩
  | frame f =>
    cases job with
    | none =>
      obtain ⟨-, rfl⟩ := Prod.mk.inj (Option.some.inj h)
      cases busy
    | some w' =>
      rcases handle_frame_cases rfl h with ⟨job, -, -, rfl⟩ | ⟨report, job, fs', -, -, rfl⟩
      · exact Or.inl busy
      · cases busy
  | restart =>
    cases job with
    | none =>
      obtain ⟨-, rfl⟩ := Prod.mk.inj (Option.some.inj h)
      cases busy
    | some w' =>
      unfold handle at h
      dsimp only at h
      split at h
      · cases h
      · obtain ⟨-, rfl⟩ := Prod.mk.inj (Option.some.inj h)
        cases busy
  | crash left =>
    obtain ⟨-, rfl⟩ := Prod.mk.inj (Option.some.inj h)
    cases busy

/-- Every job in progress has been started by one of the requests. -/
def Started (events : List ArchiveEvent) (a : Archive) : Prop :=
  ∀ w, a.job = some w → ∃ req, ArchiveEvent.request w req ∈ events

theorem started_next (started : Started events a) (h : next e a = some a') :
    Started (events ++ [e]) a' := by
  intro w busy
  obtain ⟨⟨r, a'⟩, hr, rfl⟩ := Option.map_eq_some_iff.1 h
  rcases job_handle hr busy with h | ⟨req, rfl⟩
  · obtain ⟨req, hmem⟩ := started w h
    exact ⟨req, List.mem_append_left _ hmem⟩
  · exact ⟨req, by simp⟩

theorem job_run {w : ArchiveWorld} (h : Runs.run next events (start fs) = some a)
    (busy : a.job = some w) : ∃ req, .request w req ∈ events := by
  have begins : Started [] (start fs) := fun w h => by cases h
  have along : Runs.Along next (fun _ _ => True) events (start fs) :=
    Runs.along_of_forall (fun _ _ _ => trivial) _
  have hstarted : Started ([] ++ events) a :=
    Runs.trace_of_along (fun _ _ _ _ started _ hnext => started_next started hnext) begins along h
  exact hstarted w busy

/-! ## Files that are left alone -/

/-- The file is there, and the job in progress has nothing to do with it. -/
structure Holds (p : Path) (data : List UInt8) (a : Archive) : Prop where
  file : a.fs.node p = some (.file data)
  closed : ∀ ds, a.data.fildes ds ≠ some p
  conv : ∀ w, a.job = some w → w.ConvertsOne ∧
    (a.data.job.core.noconvert = false → spell p ≠ a.data.hdf5filename)

theorem holds_idle {d : CapData} (idle : d.Idle) (file : fs.node p = some (.file data)) :
    Holds p data ⟨d, fs, none⟩ := by
  refine ⟨file, fun ds => ?_, fun w h => by cases h⟩
  rw [idle ds]
  simp

theorem holds_handle (inv : a.Inv) (holds : a.Holds p data) (leaves : e.Leaves (spell p) a)
    (h : a.handle e = some (r, a')) : a'.Holds p data := by
  obtain ⟨d, fs, job⟩ := a
  have hidle : CapData.init.Idle := fun _ => rfl
  cases e with
  | request w req =>
    cases job with
    | some w' => cases h
    | none =>
      obtain ⟨out, hout, heq⟩ := Option.map_eq_some_iff.1 h
      obtain ⟨-, rfl⟩ := Prod.mk.inj heq
      obtain ⟨one, spared⟩ := leaves
      obtain ⟨hfile, hclosed⟩ := CapData.taskCapReqHn_file (inv.idle rfl) hout holds.file spared one
      refine ⟨hfile, hclosed, fun w' hjob => ?_⟩
      dsimp only at hjob
      split_ifs at hjob with started
      obtain rfl := Option.some.inj hjob
      refine ⟨one, fun hconv hp => ?_⟩
      obtain ⟨fs₁, stat, hdf5, _, _, -, names, -, hhdf5, -, converts, -⟩ :=
        CapData.taskCapReqHn_begun hout started
      exact spared ⟨fs₁, stat, hdf5, names, Or.inr ⟨converts hconv, hp.trans hhdf5⟩⟩
  | frame f =>
    cases job with
    | none =>
      obtain ⟨-, rfl⟩ := Prod.mk.inj (Option.some.inj h)
      exact holds
    | some w =>
      obtain ⟨one, conv⟩ := holds.conv w rfl
      rcases handle_frame_cases rfl h with ⟨job, hjob, -, rfl⟩ | ⟨report, job, fs', ends, -, rfl⟩
      · refine ⟨holds.file, holds.closed, fun w' h => ?_⟩
        obtain rfl := Option.some.inj h
        refine ⟨one, fun hconv => conv ?_⟩
        exact (taskCapPktHn_noconvert (hjob ⟨true, .ok⟩)).symm.trans hconv
      · obtain ⟨env, hconclude, hrun⟩ := ends.handled
        have hafter := CapData.conclude_file report holds.file
          holds.closed one fun hconv => conv ((taskCapPktHn_noconvert hrun).symm.trans hconv)
        rw [hconclude] at hafter
        exact holds_idle (fun _ => rfl) hafter
  | restart =>
    cases job with
    | none =>
      obtain ⟨-, rfl⟩ := Prod.mk.inj (Option.some.inj h)
      exact holds_idle hidle holds.file
    | some w =>
      unfold handle at h
      dsimp only at h
      split at h
      · cases h
      · obtain ⟨-, rfl⟩ := Prod.mk.inj (Option.some.inj h)
        exact holds_idle hidle (CapData.statsWrite_file _ _ _
          ((CapData.save_other _ _ holds.closed).trans holds.file))
  | crash left =>
    obtain ⟨-, rfl⟩ := Prod.mk.inj (Option.some.inj h)
    exact holds_idle hidle ((CapData.save_other _ _ holds.closed).trans holds.file)

theorem holds_run (inv : a.Inv) (holds : a.Holds p data)
    (along : Runs.Along next (ArchiveEvent.Leaves (spell p)) events a)
    (run : Runs.run next events a = some b) : b.Inv ∧ b.Holds p data := by
  have keep : ∀ e a a', a.Inv ∧ a.Holds p data → ArchiveEvent.Leaves (spell p) e a →
      next e a = some a' → a'.Inv ∧ a'.Holds p data := by
    rintro e a a' ⟨inv, holds⟩ leaves h
    obtain ⟨⟨r, a'⟩, hr, rfl⟩ := Option.map_eq_some_iff.1 h
    exact ⟨inv_handle inv hr, holds_handle inv holds leaves hr⟩
  exact Runs.invariant_of_along keep ⟨inv, holds⟩ along run

/-- Over any run, a file is kept that no request of the run writes to. -/
theorem file_kept (reached : Runs.run next before (start fs) = some a) (holds : a.Holds p data)
    (along : Runs.Along next (ArchiveEvent.Leaves (spell p)) events a)
    (run : Runs.run next events a = some b) : b.fs.node p = some (.file data) :=
  (holds_run (inv_run reached) holds along run).2.file

end Archive

/-- The kernel completes every write at once, and all that is asked for is allowed. -/
def fineArchive : ArchiveWorld := { fineWorld with wrote := STAT_LEN, fuel := 4 }

theorem convertsOne_fine : fineArchive.ConvertsOne := fun _ _ _ _ _ file => file

/-- A capture to this file name that is cut short. -/
def cutShort (c : CStr) : List ArchiveEvent :=
  [.request fineArchive (captureOf c), .frame .tick, .frame .peak, .restart]

theorem Archive.file_kept_other : ∃ b,
    Runs.run next (cutShort "b".toList) (start (oneFile "a".toList [1])) = some b ∧
      b.fs.node (rootPath ++ ["a".toList]) = some (.file [1]) := by
  have hrun : (Runs.run next (cutShort "b".toList) (start (oneFile "a".toList [1]))).isSome =
      true := by
    decide +kernel
  have hfile : (oneFile "a".toList [1]).node (rootPath ++ ["a".toList]) = some (.file [1]) := by
    decide +kernel
  have hname : spell (rootPath ++ ["a".toList]) = DATAROOT ++ "a".toList := by decide
  have hspared : ¬ (captureOf "b".toList).Writes fineWorld (oneFile "a".toList [1])
      (spell (rootPath ++ ["a".toList])) := by
    intro h
    rcases CapData.writes_plain (noLinks_oneFile _ _) (by decide) (by decide) h with
      h | ⟨ds, h⟩ | h
    · exact absurd h (by decide)
    · exact absurd h (by cases ds <;> decide)
    · exact absurd h (by decide)
  have along : Runs.Along next (ArchiveEvent.Leaves (spell (rootPath ++ ["a".toList])))
      (cutShort "b".toList) (start (oneFile "a".toList [1])) :=
    ⟨⟨convertsOne_fine, hspared⟩, fun _ _ => ⟨trivial, fun _ _ => ⟨trivial, fun _ _ =>
      ⟨trivial, fun _ _ => trivial⟩⟩⟩⟩
  have reached : Runs.run next [] (start (oneFile "a".toList [1])) =
      some (start (oneFile "a".toList [1])) := rfl
  obtain ⟨b, hb⟩ := Option.isSome_iff_exists.1 hrun
  exact ⟨b, hb, file_kept reached (holds_idle (fun _ => rfl) hfile) along hb⟩

end Tesd
