import Tesd.CapFiles

/-!
# Captures without overwriting

Whether a request to capture without overwriting leaves all files as they are.  The data files are
opened exclusively, which fails if one exists; the file of the statistics has no such protection,
and is unlinked once the data files are open.
-/

namespace Tesd

open Posix FileSystem

namespace CapRequest

/-- The file name of a request, without an extension. -/
def base (req : CapRequest) : CStr := req.basefname.getD []

/-- The measurement of a request. -/
def group (req : CapRequest) : CStr := req.measurement.getD []

/-- The name that is canonicalized for the statistics. -/
def statName (req : CapRequest) : CStr :=
  req.base ++ (if req.group = [] then [] else ['-']) ++ req.group

/-- The name that is canonicalized for the converted file. -/
def hdf5Name (req : CapRequest) : CStr := (req.base ++ ".hdf5".toList).take (PATH_MAX - 1)

/-- The request asks for a capture. -/
def Captures (req : CapRequest) : Prop := req.minTicks ≠ 0 ∨ req.minEvents ≠ 0

/-- A request for a capture without overwriting is valid. -/
structure Accepted (w : CapWorld) (req : CapRequest) : Prop where
  base : req.basefname ≠ none
  group : req.measurement ≠ none ∨ w.mallocOk = true
  capmode : req.capmode.toNat = TES_CAP_AUTO ∨ req.capmode.toNat = TES_CAP_CAPONLY

/-- All files of a request for a capture have names, that of the statistics being `stat`; `fs'` is
the tree after the directories on the way have been created. -/
structure Named (w : CapWorld) (req : CapRequest) (fs fs' : FileSystem) (stat : CStr) : Prop where
  short : req.statName.length < PATH_MAX
  slash : '/' ∉ req.group
  room : stat.length + 5 < PATH_MAX
  paths : ∃ fs₁ hdf5, canonicalizePath w req.statName false fs = (.path stat, fs₁) ∧
    canonicalizePath w req.hdf5Name false fs₁ = (.path hdf5, fs')

end CapRequest

/-- A regular file has the name of the statistics, and nothing stops the capture before that is
removed: the request is valid, its files have names, each data file can be created and the file may
be removed. -/
structure Loses (w : CapWorld) (req : CapRequest) (fs : FileSystem) (dir : Path) (c : Name) :
    Prop where
  file : ∃ data, fs.node (dir ++ [c]) = some (.file data)
  accepted : req.Accepted w
  remove : w.rights.remove (dir ++ [c]) = true
  named : ∃ fs', req.Named w fs fs' (spell (dir ++ [c])) ∧
    ∀ ds, fs'.CanCreate w.rights dir (CapData.dataName c ds)

/-- All regular files are there as before. -/
def Preserves (fs fs' : FileSystem) : Prop :=
  ∀ p data, fs.node p = some (.file data) → fs'.node p = some (.file data)

/-- No data file is open. -/
def CapData.Idle (d : CapData) : Prop := ∀ ds, d.fildes ds = none

namespace CapData

variable {w : CapWorld} {req : CapRequest} {d d' : CapData} {fs fs' : FileSystem}

/-! ## The request -/

/-- The data after the checks of a valid request for a capture without overwriting. -/
structure Checked (req : CapRequest) (d d' : CapData) : Prop where
  base : d'.basefname = req.basefname
  group : d'.measurement = some req.group
  nocapture : d'.nocapture = false
  nooverwrite : d'.nooverwrite = true
  fildes : d'.fildes = d.fildes

theorem toNat_eq_zero_iff (x : UInt64) : x.toNat = 0 ↔ x = 0 :=
  ⟨fun h => UInt64.toNat_inj.1 h, fun h => congrArg UInt64.toNat h⟩

theorem minTicks_ne_zero (d : CapData) (capture : req.Captures) :
    (if (d.recv req).job.core.minEvents ≠ 0 ∧ (d.recv req).job.core.minTicks = 0 then 1
      else (d.recv req).job.core.minTicks) ≠ 0 := by
  have hrecv : (d.recv req).job.core.minEvents = req.minEvents.toNat ∧
      (d.recv req).job.core.minTicks = req.minTicks.toNat := ⟨rfl, rfl⟩
  split_ifs with h
  · decide
  · intro hticks
    have hevents : (d.recv req).job.core.minEvents = 0 := by
      by_contra hne
      exact h ⟨hne, hticks⟩
    rw [hrecv.1, toNat_eq_zero_iff] at hevents
    rw [hrecv.2, toNat_eq_zero_iff] at hticks
    exact capture.elim (fun hc => hc hticks) (fun hc => hc hevents)

/-- The checks of a request that asks for a capture. -/
theorem isReqValid_capture (d : CapData) (capture : req.Captures) :
    ((d.recv req).isReqValid w).1 =
      if (d.recv req).basefname = none then .einv
      else if (d.recv req).measurement = none ∧ w.mallocOk = false then .efail
      else if (d.recv req).ovrwtmode ≠ TES_H5_OVRWT_NONE ∧
        (d.recv req).ovrwtmode ≠ TES_H5_OVRWT_RELINK ∧
        (d.recv req).ovrwtmode ≠ TES_H5_OVRWT_FILE then .einv
      else if (d.recv req).capmode ≠ TES_CAP_AUTO ∧ (d.recv req).capmode ≠ TES_CAP_CAPONLY ∧
        (d.recv req).capmode ≠ TES_CAP_CONVONLY then .einv
      else if (d.recv req).capmode = TES_CAP_CONVONLY then .einv
      else .ok := by
  have hticks := minTicks_ne_zero d capture
  simp only [isReqValid, decide_eq_false hticks, withCore_capmode, and_true, Bool.false_eq_true,
    and_false, or_false, apply_ite Prod.fst]

theorem accepted_of_isReqValid (capture : req.Captures) (h : ((d.recv req).isReqValid w).1 = .ok) :
    req.Accepted w := by
  have hticks : (d.recv req).askedTicks ≠ 0 := minTicks_ne_zero d capture
  obtain ⟨ok, -⟩ := isReqValid_eq_ok_iff.1 (Prod.ext h rfl)
  refine ⟨ok.base, ok.group, ?_⟩
  rcases ok.capmode with hauto | ⟨hcaponly, -⟩ | ⟨-, hzero⟩
  · exact .inl hauto
  · exact .inr hcaponly
  · exact absurd hzero hticks

theorem isReqValid_ok_iff (d : CapData) (capture : req.Captures)
    (mode : req.ovrwtmode.toNat = TES_H5_OVRWT_NONE) :
    ((d.recv req).isReqValid w).1 = .ok ↔ req.Accepted w := by
  refine ⟨accepted_of_isReqValid capture, fun accepted => ?_⟩
  have hticks : (d.recv req).askedTicks ≠ 0 := minTicks_ne_zero d capture
  have ok : (d.recv req).ReqOk w := ⟨accepted.base, accepted.group, .inl mode,
    accepted.capmode.imp_right fun h => .inl ⟨h, hticks⟩⟩
  exact congrArg Prod.fst (isReqValid_eq_ok_iff.2 ⟨ok, rfl⟩)

theorem isReqValid_fildes (w : CapWorld) (d : CapData) : (d.isReqValid w).2.fildes = d.fildes := by
  unfold isReqValid
  dsimp only
  split_ifs <;> rfl

/-- The data after the checks of a valid request for a capture. -/
structure CheckedCapture (req : CapRequest) (d d' : CapData) : Prop where
  base : d'.basefname = req.basefname
  group : d'.measurement = some req.group
  nocapture : d'.nocapture = false
  nooverwrite : d'.nooverwrite = (req.ovrwtmode.toNat == TES_H5_OVRWT_NONE)

theorem checkedCapture_of_isReqValid (capture : req.Captures)
    (h : (d.recv req).isReqValid w = (.ok, d')) : CheckedCapture req d d' := by
  have hticks : (d.recv req).askedTicks ≠ 0 := minTicks_ne_zero d capture
  obtain ⟨-, rfl⟩ := isReqValid_eq_ok_iff.1 h
  exact ⟨rfl, rfl, decide_eq_false hticks, rfl⟩

theorem checked_of_isReqValid (capture : req.Captures)
    (mode : req.ovrwtmode.toNat = TES_H5_OVRWT_NONE)
    (h : (d.recv req).isReqValid w = (.ok, d')) : Checked req d d' := by
  have checked := checkedCapture_of_isReqValid capture h
  have hfildes := isReqValid_fildes w (d.recv req)
  rw [h] at hfildes
  exact ⟨checked.base, checked.group, checked.nocapture,
    checked.nooverwrite.trans (beq_iff_eq.2 mode), hfildes⟩

/-! ## The names -/

/-- The data after its names have been constructed. -/
structure HasNames (req : CapRequest) (w : CapWorld) (d d' : CapData) (fs fs' : FileSystem) :
    Prop where
  named : req.Named w fs fs' d'.statfilename
  filename : ∀ ds, d'.filename ds = d'.statfilename ++ '.' :: ds.extension
  nocapture : d'.nocapture = d.nocapture
  nooverwrite : d'.nooverwrite = d.nooverwrite
  fildes : d'.fildes = d.fildes

section Names

variable (base : d.basefname = req.basefname) (group : d.measurement = some req.group)
  (nocapture : d.nocapture = false)
include base group nocapture

theorem namesFor_iff {stat hdf5 : CStr} :
    NamesFor w (d.basefname.getD []) (d.measurement.getD []) d.nocapture fs fs' stat hdf5 ↔
      NamesFor w req.base req.group false fs fs' stat hdf5 := by
  rw [base, group, nocapture]
  exact Iff.rfl

theorem hasNames_of_constructFilenames (h : d.constructFilenames w fs = some (.ok, d', fs')) :
    HasNames req w d d' fs fs' := by
  obtain ⟨stat, hdf5, names, rfl⟩ := constructFilenames_ok_iff.1 h
  obtain ⟨hshort, hslash, hroom, fs₁, hstat, hhdf5⟩ := (namesFor_iff base group nocapture).1 names
  exact ⟨⟨hshort, hslash, hroom, fs₁, hdf5, hstat, hhdf5⟩, fun _ => rfl, rfl, rfl, rfl⟩

theorem constructFilenames_of_named {stat : CStr} (named : req.Named w fs fs' stat) :
    ∃ d', d.constructFilenames w fs = some (.ok, d', fs') ∧ d'.statfilename = stat := by
  obtain ⟨hshort, hslash, hroom, fs₁, hdf5, hstat, hhdf5⟩ := named
  have names : NamesFor w req.base req.group false fs fs' stat hdf5 :=
    ⟨hshort, hslash, hroom, fs₁, hstat, hhdf5⟩
  exact ⟨d.named stat hdf5, constructFilenames_ok_iff.2
    ⟨stat, hdf5, (namesFor_iff base group nocapture).2 names, rfl⟩, rfl⟩

end Names

/-! ## The files -/

/-- The statistics have a name in a real directory, and the data files are next to it. -/
structure Placed (w : CapWorld) (d : CapData) (fs : FileSystem) (dir : Path) (c : Name) :
    Prop where
  stat : d.statfilename = spell (dir ++ [c])
  filename : ∀ ds, d.filename ds = d.statfilename ++ '.' :: ds.extension
  nonempty : c ≠ []
  slash : '/' ∉ c
  real : fs.Real w.rights dir
  isDir : fs.node dir = some .dir

theorem Placed.names {dir : Path} {c : Name} (placed : Placed w d fs dir c) (ds : Dset) :
    d.filename ds = spell (dir ++ [dataName c ds]) := by
  rw [placed.filename, placed.stat, spell_dataName]

theorem notOpen_of_openedNew (idle : d.Idle) (opened : OpenedNew d d' fs fs') {p : Path}
    {n : Node} (there : fs.node p = some n) : ∀ ds, d'.fildes ds ≠ some p := by
  intro ds hds
  rcases opened.new ds p hds with h | h
  · rw [idle ds] at h
    cases h
  · rw [there] at h
    cases h

/-- The removal of the statistics keeps what there is, except for their entry. -/
theorem unlink_statfilename {dir : Path} {c : Name} (placed : Placed w d fs dir c)
    (keeps : fs.Keeps fs') {p : Path} {n : Node} (there : fs'.node p = some n) :
    (fs'.unlink w.rights (spell (dir ++ [c]))).2.node p = some n ∨
      ((fs'.unlink w.rights (spell (dir ++ [c]))).1 = none ∧ p = dir ++ [c] ∧
        w.rights.remove p = true) := by
  rcases unlink_cases fs' w.rights (spell (dir ++ [c])) with
    ⟨e, he⟩ | ⟨dir', c', hplace, -, hremove, hok, hnode⟩
  · rw [he]
    exact Or.inl there
  · rw [parent_spell (keeps.real placed.real) (keeps dir _ placed.isDir) placed.nonempty
      placed.slash] at hplace
    split_ifs at hplace
    obtain ⟨rfl, rfl⟩ := Prod.mk.inj (Except.ok.inj hplace)
    by_cases hp : p = dir ++ [c]
    · subst hp
      exact Or.inr ⟨hok, rfl, hremove⟩
    · left
      rw [hnode, Function.update_of_ne hp, there]

/-- The start of a capture keeps what there is, except for the entry of the statistics. -/
theorem start_node {dir : Path} {c : Name} (idle : d.Idle) (excl : d.nooverwrite = true)
    (placed : Placed w d fs dir c) {p : Path} {n : Node} (there : fs.node p = some n) :
    (d.start w fs).fs.node p = some n ∨ (p = dir ++ [c] ∧ w.rights.remove p = true ∧
      ∀ ds, fs.CanCreate w.rights dir (dataName c ds)) := by
  have hopened := openFiles_excl w d fs
  have hok := openFiles_ok_iff (w := w) placed.real placed.isDir placed.slash placed.names
  have hkept := hopened.keeps p n there
  unfold start
  rw [excl]
  split
  next d₁ fs₁ hopen =>
    rw [hopen] at hopened hok hkept
    have hcan := hok.1 rfl
    have hclosed : ∀ ds, d₁.free.fildes ds ≠ some p := notOpen_of_openedNew idle hopened there
    have hunlink := unlink_statfilename placed hopened.keeps hkept
    rw [← placed.stat, ← hopened.statfilename] at hunlink
    dsimp only at hunlink ⊢
    by_cases haccess : fs₁.accessOk w.rights d₁.statfilename = true
    · rw [if_pos haccess]
      rcases hunlink with hun | ⟨hnone, hp, hremove⟩
      · split_ifs
        · exact Or.inl ((closeFiles_node hclosed).trans hun)
        · exact Or.inl hun
      · exact Or.inr ⟨hp, hremove, hcan⟩
    · rw [if_neg haccess, if_neg (fun h => h rfl)]
      exact Or.inl hkept
  next rc d₁ fs₁ hno hopen =>
    rw [hopen] at hopened hkept
    have hclosed : ∀ ds, d₁.free.fildes ds ≠ some p := notOpen_of_openedNew idle hopened there
    exact Or.inl ((closeFiles_node hclosed).trans hkept)

/-- A regular file that has the name of the statistics is removed. -/
theorem start_unlinks {dir : Path} {c : Name} {data : List UInt8} (excl : d.nooverwrite = true)
    (placed : Placed w d fs dir c) (file : fs.node (dir ++ [c]) = some (.file data))
    (remove : w.rights.remove (dir ++ [c]) = true)
    (can : ∀ ds, fs.CanCreate w.rights dir (dataName c ds)) :
    (d.start w fs).fs.node (dir ++ [c]) = none := by
  have hopened := openFiles_excl w d fs
  have hok := openFiles_ok_iff (w := w) placed.real placed.isDir placed.slash placed.names
  have hsearch := (can .fidx).search
  unfold start
  rw [excl]
  split
  next d₁ fs₁ hopen =>
    rw [hopen] at hopened
    have hfile := hopened.keeps _ _ file
    have hreal := hopened.keeps.real placed.real
    have hthere : fs₁.Real w.rights (dir ++ [c]) :=
      real_child hreal (hopened.keeps dir _ placed.isDir) hsearch hfile fun _ h => by cases h
    have haccess := accessOk_spell hthere
    obtain ⟨hnone, hgone⟩ := unlink_spell hreal hsearch hfile remove
    rw [← placed.stat, ← hopened.statfilename] at haccess hnone hgone
    dsimp only at haccess hnone hgone ⊢
    rw [if_pos haccess, if_neg (fun h => h hnone)]
    exact hgone
  next rc d₁ fs₁ hno hopen =>
    rw [hopen] at hok
    exact absurd (hok.2 can) hno

theorem placed_of_hasNames (hasNames : HasNames req w d d' fs fs') :
    ∃ dir c, Placed w d' fs' dir c := by
  obtain ⟨fs₁, hdf5, hstat, hhdf5⟩ := hasNames.named.paths
  have hroom := hasNames.named.room
  obtain ⟨dir, c, hspell, hne, hslash, hreal, hdir⟩ := entry_of_canonicalizePath hstat (by omega)
  have hkeeps := keeps_canonicalizePath w req.hdf5Name false fs₁
  rw [hhdf5] at hkeeps
  exact ⟨dir, c, hspell, hasNames.filename, hne, hslash, hkeeps.real hreal, hkeeps dir _ hdir⟩

/-- What a capture loses, once its files have names. -/
theorem preserves_start_iff {d₀ : CapData} (idle : d₀.Idle) (checked : Checked req d₀ d)
    (accepted : req.Accepted w) (h : d.constructFilenames w fs = some (.ok, d', fs')) :
    Preserves fs (d'.start w fs').fs ↔ ∀ dir c, ¬ Loses w req fs dir c := by
  have hasNames := hasNames_of_constructFilenames checked.base checked.group checked.nocapture h
  have hkeeps := keeps_constructFilenames h
  obtain ⟨dir, c, placed⟩ := placed_of_hasNames hasNames
  have hidle : d'.Idle := by
    intro ds
    rw [hasNames.fildes, checked.fildes]
    exact idle ds
  have excl : d'.nooverwrite = true := hasNames.nooverwrite.trans checked.nooverwrite
  constructor
  · intro preserves dir' c' loses
    obtain ⟨data, hfile⟩ := loses.file
    obtain ⟨fs₂, named, can⟩ := loses.named
    obtain ⟨d₂, hconstruct, hstat⟩ :=
      constructFilenames_of_named checked.base checked.group checked.nocapture named
    -- these are the names that the handler has constructed
    rw [h] at hconstruct
    cases hconstruct
    have hpath : dir' ++ [c'] = dir ++ [c] := by
      apply spell_injective
      · exact fun x hx => (legal_of_node hfile x hx).slash
      · exact slash_notMem_child placed.isDir placed.slash
      · exact hstat.symm.trans placed.stat
    obtain ⟨rfl, hc⟩ := List.append_inj' hpath rfl
    obtain rfl := List.singleton_inj.1 hc
    have hgone := start_unlinks excl placed (hkeeps _ _ hfile) loses.remove can
    rw [preserves _ data hfile] at hgone
    cases hgone
  · intro safe p data hfile
    rcases start_node hidle excl placed (hkeeps p _ hfile) with hkept | ⟨rfl, hremove, can⟩
    · exact hkept
    · exact absurd ⟨⟨data, hfile⟩, accepted, hremove, fs', placed.stat ▸ hasNames.named, can⟩
        (safe dir c)

end CapData

/-! ## The handler leaves the task idle -/

namespace CapData

variable {w : CapWorld} {d d' : CapData} {fs fs' : FileSystem}

theorem statsRead_fildes (w : CapWorld) (d : CapData) (fs : FileSystem) :
    (d.statsRead w fs).2.fildes = d.fildes := by
  rw [statsRead_eq]
  rfl

theorem query_fildes (w : CapWorld) (d : CapData) (fs : FileSystem) :
    (d.query w fs).data.fildes = d.fildes := by
  unfold query
  generalize (if d.job.core.noconvert = true then (CapStatus.ok, fs) else w.conv d fs) = r
  have hread := statsRead_fildes w d r.2
  dsimp only
  split
  · rfl
  · split
    next h =>
      rw [h] at hread
      exact hread
    next h =>
      rw [h] at hread
      exact hread

theorem idle_closeFiles (d : CapData) (fs : FileSystem) : (d.closeFiles Dset.all fs).1.Idle := by
  intro ds
  rw [closeFiles_fildes, if_pos ds.mem_all]

theorem idle_start (h : (d.start w fs).activated = false) : (d.start w fs).data.Idle := by
  revert h
  unfold start
  split
  · dsimp only
    split_ifs
    · exact fun _ => idle_closeFiles _ _
    · exact fun h => h.elim
    · exact fun _ => idle_closeFiles _ _
    · exact fun h => h.elim
  · exact fun _ => idle_closeFiles _ _

end CapData

/-- A handler that has not activated the task leaves no data file open. -/
theorem idle_of_taskCapReqHn {w : CapWorld} {req : CapRequest} {d : CapData} {fs : FileSystem}
    {out : CapOutcome} (idle : d.Idle) (h : taskCapReqHn w req d fs = some out)
    (inactive : out.activated = false) : out.data.Idle := by
  have hvalid := CapData.isReqValid_fildes w ((d.dbgAssert !d.job.core.recording).recv req)
  rcases taskCapReqHn_cases h with ⟨rc, d₁, hchecks, -, rfl⟩ | ⟨d₁, hchecks, hrest⟩
  · rw [hchecks] at hvalid
    exact fun ds => (congrFun hvalid ds).trans (idle ds)
  · rw [hchecks] at hvalid
    have hidle : d₁.Idle := fun ds => (congrFun hvalid ds).trans (idle ds)
    have hnamed : ∀ {rc d₂ fs₁}, d₁.constructFilenames w fs = some (rc, d₂, fs₁) → d₂.Idle :=
      fun hnames ds => (congrFun (CapData.constructFilenames_fildes hnames) ds).trans (hidle ds)
    rcases hrest with ⟨rc, d₂, fs₁, hnames, -, rfl⟩ | ⟨d₂, fs₁, hnames, rfl⟩
    · have hidle₂ : d₂.Idle := hnamed hnames
      exact hidle₂
    · by_cases hquery : d₂.nocapture = true
      · rw [if_pos hquery]
        exact fun ds => (congrFun (CapData.query_fildes w d₂ fs₁) ds).trans (hnamed hnames ds)
      · rw [if_neg hquery] at inactive ⊢
        exact CapData.idle_start inactive

/-! ## What is lost -/

/-- A capture without overwriting leaves all regular files as they are if and only if none of them
has the name of the statistics, or something stops the capture first. -/
theorem preserves_iff {w : CapWorld} {req : CapRequest} {d : CapData} {fs : FileSystem}
    {out : CapOutcome} (idle : d.Idle) (capture : req.Captures)
    (mode : req.ovrwtmode.toNat = TES_H5_OVRWT_NONE) (h : taskCapReqHn w req d fs = some out) :
    Preserves fs out.fs ↔ ∀ dir c, ¬ Loses w req fs dir c := by
  have hvalid := CapData.isReqValid_ok_iff (w := w) (d.dbgAssert !d.job.core.recording) capture mode
  have kept : ∀ {fs' : FileSystem}, fs.Keeps fs' → Preserves fs fs' :=
    fun hkeeps p data hp => hkeeps p _ hp
  rcases taskCapReqHn_cases h with ⟨rc, d₁, hchecks, hno, rfl⟩ | ⟨d₁, hchecks, hrest⟩
  · refine iff_of_true (kept (keeps_refl fs)) fun dir c loses => ?_
    rw [hchecks] at hvalid
    exact hno (hvalid.2 loses.accepted)
  · rw [hchecks] at hvalid
    have checked := CapData.checked_of_isReqValid capture mode hchecks
    have hidle : (d.dbgAssert !d.job.core.recording).Idle := idle
    rcases hrest with ⟨rc, d₂, fs₁, hnames, hno, rfl⟩ | ⟨d₂, fs₁, hnames, rfl⟩
    · have hkeeps := CapData.keeps_constructFilenames hnames
      refine iff_of_true (kept hkeeps) fun dir c loses => ?_
      obtain ⟨fs₂, named, -⟩ := loses.named
      obtain ⟨d₃, hconstruct, -⟩ :=
        CapData.constructFilenames_of_named checked.base checked.group checked.nocapture named
      rw [hnames] at hconstruct
      cases hconstruct
      exact hno rfl
    · have hcap : d₂.nocapture = false :=
        (CapData.hasNames_of_constructFilenames checked.base checked.group checked.nocapture
          hnames).nocapture.trans checked.nocapture
      rw [hcap, if_neg (by decide)]
      exact CapData.preserves_start_iff hidle checked (hvalid.1 rfl) hnames

/-- The data root with one file in it. -/
def oneFile (c : Name) (data : List UInt8) : FileSystem :=
  let media : Path := ["media".toList]
  let disk : Path := media ++ ["data".toList]
  let root : Path := disk ++ ["captures".toList]
  (((bare.enter [] "media".toList .dir).enter media "data".toList .dir).enter disk
    "captures".toList .dir).enter root c (.file data)

def everyRight : Rights where
  search := fun _ => true
  create := fun _ => true
  remove := fun _ => true
  read := fun _ => true
  write := fun _ => true

def fineWorld : CapWorld where
  rights := everyRight
  mallocOk := true
  readOk := true
  sched := fun _ => ⟨fun _ => ⟨0, none, 0, .complete⟩, fun _ _ => false⟩
  conv := fun _ fs => (.ok, fs)

/-- A capture of one tick to this file name, without overwriting. -/
def captureOf (c : CStr) : CapRequest where
  basefname := some c
  measurement := none
  minTicks := 1
  minEvents := 0
  ovrwtmode := 0
  async := 0
  capmode := 0

theorem preserves_iff_hdf5 : ∃ out, taskCapReqHn fineWorld (captureOf "a.hdf5".toList) .init
    (oneFile "a.hdf5".toList [1, 2]) = some out ∧
      (Preserves (oneFile "a.hdf5".toList [1, 2]) out.fs ↔ ∀ dir c,
        ¬ Loses fineWorld (captureOf "a.hdf5".toList) (oneFile "a.hdf5".toList [1, 2]) dir c) := by
  have hsome : (taskCapReqHn fineWorld (captureOf "a.hdf5".toList) .init
      (oneFile "a.hdf5".toList [1, 2])).isSome = true := by
    decide +kernel
  obtain ⟨out, hout⟩ := Option.isSome_iff_exists.1 hsome
  exact ⟨out, hout, preserves_iff (fun _ => rfl) (Or.inl (by decide)) rfl hout⟩

/-- A converted file is unlinked, when the name of a later capture ends with `.hdf5`. -/
theorem not_preserves : ¬ ∀ (w : CapWorld) (req : CapRequest) (d : CapData) (fs : FileSystem)
    (out : CapOutcome), d.Idle → req.Captures → req.ovrwtmode.toNat = TES_H5_OVRWT_NONE →
      taskCapReqHn w req d fs = some out → Preserves fs out.fs := by
  intro h
  let path : Path := ["media".toList, "data".toList, "captures".toList, "a.hdf5".toList]
  have hfile : (oneFile "a.hdf5".toList [1, 2]).node path = some (.file [1, 2]) := by
    decide +kernel
  have hgone : (taskCapReqHn fineWorld (captureOf "a.hdf5".toList) .init
      (oneFile "a.hdf5".toList [1, 2])).map (fun out => out.fs.node path) = some none := by
    decide +kernel
  obtain ⟨out, hout, hnode⟩ := Option.map_eq_some_iff.1 hgone
  have hkept := h fineWorld (captureOf "a.hdf5".toList) .init (oneFile "a.hdf5".toList [1, 2]) out
    (fun _ => rfl) (Or.inl (by decide)) rfl hout path [1, 2] hfile
  rw [hnode] at hkept
  cases hkept

end Tesd
