import Tesd.ForkAndRun
import Tesd.Groups

/-!
# Trying a conversion again

`s_hdf5_init` creates the group before it maps the data files, and leaves it there if a file can not
be mapped: the next conversion for the measurement is refused.  Nor is anything undone if the hdf5
file was not found and has been created over an old one.
-/

namespace Tesd

open Asserting

variable {σ ι γ : Type} {h5 : H5 σ} {view : σ → GroupView ι γ} {creq : ConvReq} {data : CreqData}
  {ddesc : DsetDesc} {ddescs : List DsetDesc} {filename group : CStr} {rc : CapStatus}
  {lid gid : ℤ} {s s' s'' : σ}

/-- If the initialization for this request fails, the measurement groups are the same as before, and
a later one for the same measurement is refused only if the group was there before. -/
def FailsCleanly (h5 : H5 σ) (view : σ → GroupView ι γ) (creq : ConvReq) (s : σ) : Prop :=
  ∀ rc data s', h5.hdf5Init creq.data s = some ((rc, data), s') → rc ≠ .ok →
    (view s').names = (view s).names ∧
    ∀ (creq' : ConvReq) s₁ data' s₂, (view s₁).file = (view s').file → creq'.Valid →
      creq'.filename = creq.filename → creq'.group = creq.group →
      creq'.ovrwtmode.toNat = TES_H5_OVRWT_NONE →
      h5.hdf5Init creq'.data s₁ = some ((.eabort, data'), s₂) →
      creq.group.getD [] ∈ (view s).names

/-! ## What is mapped -/

/-- Where the part of a file of this size begins. -/
def DsetDesc.start (ddesc : DsetDesc) (fsize : ℕ) : ℤ :=
  if ddesc.offset < 0 then ddesc.offset + fsize else ddesc.offset

/-- How much of a file of this size is mapped, from its beginning. -/
def DsetDesc.extent (ddesc : DsetDesc) (fsize : ℕ) : ℤ :=
  ddesc.start fsize +
    if ddesc.length < 0 ∨ ddesc.length > fsize - ddesc.start fsize then fsize - ddesc.start fsize
    else ddesc.length

/-- The file can be opened, its size is found, and the part that is asked for can be mapped, if there
is a file and such a part. -/
def Maps (h5 : H5 σ) (ddesc : DsetDesc) (s s' : σ) : Prop :=
  if ddesc.filename = none ∨ ddesc.length = 0 then s' = s
  else ∃ fd s₁ fsize s₂, h5.openFd (ddesc.filename.getD []) s = (some fd, s₁) ∧
    h5.lseekEnd fd s₁ = (some fsize, s₂) ∧
    if fsize = 0 ∨ ddesc.start fsize ≥ fsize ∨ ddesc.start fsize < 0 then s' = h5.closeFd fd s₂
    else ∃ addr s₃, h5.mmap (ddesc.extent fsize) fd s₂ = (some addr, s₃) ∧ s' = h5.closeFd fd s₃

/-- All data files can be mapped, one after the other. -/
def AllMap (h5 : H5 σ) : List DsetDesc → σ → Prop
  | [], _ => True
  | ddesc :: ddescs, s => ∃ s', Maps h5 ddesc s s' ∧ AllMap h5 ddescs s'

theorem Maps.unique (h : Maps h5 ddesc s s') (h' : Maps h5 ddesc s s'') : s' = s'' := by
  unfold Maps at h h'
  split_ifs at h h' with hnone
  · exact h.trans h'.symm
  · obtain ⟨fd, s₁, fsize, s₂, hopen, hseek, h⟩ := h
    obtain ⟨fd', s₁', fsize', s₂', hopen', hseek', h'⟩ := h'
    cases hopen.symm.trans hopen'
    cases hseek.symm.trans hseek'
    split_ifs at h h' with hout
    · exact h.trans h'.symm
    · obtain ⟨addr, s₃, hmmap, rfl⟩ := h
      obtain ⟨addr', s₃', hmmap', rfl⟩ := h'
      cases hmmap.symm.trans hmmap'
      rfl

/-- A data file that is open is mapped if it can be. -/
theorem mapFd_status {fd fsize : ℕ} {ddesc' : DsetDesc} (nonzero : ddesc.length ≠ 0)
    (file : ddesc.filename ≠ none) {s₁ s₂ : σ}
    (hopen : h5.openFd (ddesc.filename.getD []) s = (some fd, s₁))
    (hseek : h5.lseekEnd fd s₁ = (some fsize, s₂))
    (h : h5.mapFd ddesc fd fsize s₂ = some ((rc, ddesc'), s')) :
    (rc = .ok ∧ Maps h5 ddesc s s') ∨ (rc = .efail ∧ ∀ s'', ¬ Maps h5 ddesc s s'') := by
  have hmaps : ∀ s'', Maps h5 ddesc s s'' ↔
      if fsize = 0 ∨ ddesc.start fsize ≥ fsize ∨ ddesc.start fsize < 0 then
        s'' = h5.closeFd fd s₂
      else ∃ addr s₃, h5.mmap (ddesc.extent fsize) fd s₂ = (some addr, s₃) ∧
        s'' = h5.closeFd fd s₃ := by
    intro s''
    rw [Maps, if_neg (by simp [nonzero, file])]
    constructor
    · rintro ⟨fd', s₁', fsize', s₂', hopen', hseek', h⟩
      cases hopen.symm.trans hopen'
      cases hseek.symm.trans hseek'
      exact h
    · exact fun h => ⟨fd, s₁, fsize, s₂, hopen, hseek, h⟩
  simp only [hmaps]
  unfold H5.mapFd at h
  dsimp only at h
  rw [← DsetDesc.start] at h
  by_cases hout : fsize = 0 ∨ ddesc.start fsize ≥ fsize ∨ ddesc.start fsize < 0
  · rw [if_pos hout] at h
    cases h
    exact .inl ⟨rfl, by rw [if_pos hout]⟩
  · rw [if_neg hout] at h
    simp only [check_bind_eq_some] at h
    obtain ⟨-, -, -, -, h⟩ := h
    rw [← DsetDesc.extent] at h
    obtain ⟨addr, s₃, hmmap, h⟩ := bind_eq_some.1 h
    have hmmap := Option.some.inj hmmap
    simp only [if_neg hout, hmmap]
    cases addr with
    | none =>
      cases h
      refine .inr ⟨rfl, ?_⟩
      rintro s'' ⟨addr, s₃', heq, -⟩
      cases heq
    | some addr =>
      cases h
      exact .inl ⟨rfl, addr, s₃, rfl, rfl⟩

theorem mapFile_status {ddesc' : DsetDesc} (h : h5.mapFile ddesc s = some ((rc, ddesc'), s')) :
    (rc = .ok ∧ Maps h5 ddesc s s') ∨ (rc = .efail ∧ ∀ s'', ¬ Maps h5 ddesc s s'') := by
  unfold H5.mapFile at h
  rw [check_bind_eq_some, check_bind_eq_some] at h
  obtain ⟨hfile, -, h⟩ := h
  by_cases hzero : ddesc.length = 0
  · rw [if_pos hzero] at h
    cases h
    exact .inl ⟨rfl, by rw [Maps, if_pos (.inr hzero)]⟩
  rw [if_neg hzero] at h
  have hnone : ¬ (ddesc.filename = none ∨ ddesc.length = 0) := not_or.2 ⟨hfile, hzero⟩
  obtain ⟨fd, s₁, hopen, h⟩ := bind_eq_some.1 h
  have hopen := Option.some.inj hopen
  cases fd with
  | none =>
    cases h
    refine .inr ⟨rfl, fun s'' hmaps => ?_⟩
    rw [Maps, if_neg hnone] at hmaps
    obtain ⟨_, _, _, _, hopen', -⟩ := hmaps
    cases hopen.symm.trans hopen'
  | some fd =>
    obtain ⟨fsize, s₂, hseek, h⟩ := bind_eq_some.1 h
    have hseek := Option.some.inj hseek
    cases fsize with
    | none =>
      cases h
      refine .inr ⟨rfl, fun s'' hmaps => ?_⟩
      rw [Maps, if_neg hnone] at hmaps
      obtain ⟨_, _, _, _, hopen', hseek', -⟩ := hmaps
      cases hopen.symm.trans hopen'
      cases hseek.symm.trans hseek'
    | some fsize => exact mapFd_status hzero hfile hopen hseek h

/-- The data files are mapped if all of them can be. -/
theorem mapFiles_status {ddescs' : List DsetDesc}
    (h : h5.mapFiles ddescs s = some ((rc, ddescs'), s')) :
    (rc = .ok ∧ AllMap h5 ddescs s) ∨ (rc = .efail ∧ ¬ AllMap h5 ddescs s) := by
  induction ddescs generalizing s ddescs' with
  | nil =>
    cases h
    exact .inl ⟨rfl, trivial⟩
  | cons ddesc ddescs ih =>
    obtain ⟨⟨rc₁, first⟩, s₁, hfirst, h⟩ := bind_eq_some.1 h
    have hstatus : (rc₁ = .ok ∧ Maps h5 ddesc s s₁) ∨
        (rc₁ = .efail ∧ ∀ s'', ¬ Maps h5 ddesc s s'') := by
      by_cases hfile : ddesc.filename = none
      · rw [if_pos hfile] at hfirst
        cases hfirst
        exact .inl ⟨rfl, by rw [Maps, if_pos (.inl hfile)]⟩
      · rw [if_neg hfile] at hfirst
        exact mapFile_status hfirst
    dsimp only at h
    rcases hstatus with ⟨rfl, hmaps⟩ | ⟨rfl, hnot⟩
    · rw [if_neg (not_not.2 rfl)] at h
      obtain ⟨⟨rc₂, rest⟩, s₂, hrest, h⟩ := bind_eq_some.1 h
      cases h
      rcases ih hrest with ⟨hok, hall⟩ | ⟨hfail, hnot⟩
      · exact .inl ⟨hok, s₁, hmaps, hall⟩
      · refine .inr ⟨hfail, ?_⟩
        rintro ⟨s₁', hmaps', hall⟩
        obtain rfl := hmaps.unique hmaps'
        exact hnot hall
    · rw [if_pos (by decide)] at h
      cases h
      exact .inr ⟨rfl, fun ⟨s₁', hmaps, _⟩ => hnot s₁' hmaps⟩

/-! ## What is created -/

/-- The file can be opened or created, and in it the group for the measurements, in which there is
not this group, and it can be created. -/
def MakesGroup (h5 : H5 σ) (filename group : CStr) (s s' : σ) : Prop :=
  ∃ fok s₁ fid s₂ n s₃ root s₄ s₅ client s₆, h5.access filename s = (fok, s₁) ∧
    (if fok = true then h5.fopen filename s₁ else h5.fcreate filename s₁) = (fid, s₂) ∧
    fid.val > 0 ∧ h5.lexists fid ROOT_GROUP s₂ = (n, s₃) ∧ n ≥ 0 ∧
    (if n > 0 then h5.gopen fid ROOT_GROUP s₃ else h5.gcreate fid ROOT_GROUP s₃) = (root, s₄) ∧
    root.val > 0 ∧ h5.lexists root group s₄ = (0, s₅) ∧ h5.gcreate root group s₅ = (client, s₆) ∧
    client.val > 0 ∧ s' = h5.gclose root s₆

theorem MakesGroup.unique (h : MakesGroup h5 filename group s s')
    (h' : MakesGroup h5 filename group s s'') : s' = s'' := by
  obtain ⟨fok, s₁, fid, s₂, n, s₃, root, s₄, s₅, client, s₆, haccess, hopen, -, hn, -, hroot, -, hm,
    hclient, -, rfl⟩ := h
  obtain ⟨_, _, _, _, _, _, _, _, _, _, _, haccess', hopen', -, hn', -, hroot', -, hm', hclient', -,
    rfl⟩ := h'
  cases haccess.symm.trans haccess'
  cases hopen.symm.trans hopen'
  cases hn.symm.trans hn'
  cases hroot.symm.trans hroot'
  cases hm.symm.trans hm'
  cases hclient.symm.trans hclient'
  rfl

theorem openFile_iff (file : creq.filename = some filename)
    (mode : creq.ovrwtmode.toNat ≠ TES_H5_OVRWT_FILE) {opened : ℤ} :
    h5.openFile creq s = some (some opened, s') ↔ ∃ fok s₁ fid, h5.access filename s = (fok, s₁) ∧
      (if fok = true then h5.fopen filename s₁ else h5.fcreate filename s₁) = (fid, s') ∧
      fid.val > 0 ∧ opened = fid.val := by
  unfold H5.openFile
  simp only [file, Option.getD_some, mode, and_false, if_false, not_false_iff, and_true, pure_bind,
    reduceCtorEq]
  rcases haccess : h5.access filename s with ⟨fok, s₁⟩
  rcases hopen : (if fok = true then h5.fopen filename s₁ else h5.fcreate filename s₁) with
    ⟨fid, s₂⟩
  have hcall : (if fok = true then call (h5.fopen filename) else call (h5.fcreate filename)) s₁ =
      some (fid, s₂) := by
    rw [← hopen]
    split_ifs <;> rfl
  rw [bind_run, call_run, haccess, Option.bind_some, bind_run, hcall, Option.bind_some]
  dsimp only
  constructor
  · intro h
    split_ifs at h with hneg
    · cases h
    · cases h
      exact ⟨fok, s₁, fid, rfl, hopen, (hid_pos_iff fid).2 hneg, rfl⟩
  · rintro ⟨fok', s₁', fid', hfok, hfid, hpos, rfl⟩
    cases hfok
    cases hopen.symm.trans hfid
    rw [if_neg ((hid_pos_iff fid).1 hpos)]
    rfl

theorem getGrp_iff (hlid : lid > 0) : (h5.getGrp lid group true s = some (gid, s') ∧ gid > 0) ↔
    ∃ n s₁ hid, h5.lexists lid group s = (n, s₁) ∧ n ≥ 0 ∧
      (if n > 0 then h5.gopen lid group s₁ else h5.gcreate lid group s₁) = (hid, s') ∧
      hid.val > 0 ∧ gid = hid.val := by
  unfold H5.getGrp
  rcases hlexists : h5.lexists lid group s with ⟨n, s₁⟩
  rw [check_bind_eq_some, and_iff_right hlid, bind_run, call_run, hlexists, Option.bind_some]
  dsimp only
  by_cases hneg : n < 0
  · rw [if_pos hneg]
    refine iff_of_false ?_ ?_
    · rintro ⟨h, hpos⟩
      cases h
      exact absurd hpos (by decide)
    · rintro ⟨n', s₁', hid, heq, hn, -⟩
      cases heq
      omega
  rw [if_neg hneg, if_neg (by simp)]
  rcases hopen : (if n > 0 then h5.gopen lid group s₁ else h5.gcreate lid group s₁) with ⟨hid, s₂⟩
  have hcall : (if n > 0 then call (h5.gopen lid group) else call (h5.gcreate lid group)) s₁ =
      some (hid, s₂) := by
    rw [← hopen]
    split_ifs <;> rfl
  rw [bind_run, hcall, Option.bind_some]
  dsimp only
  constructor
  · rintro ⟨h, hpos⟩
    split_ifs at h with hneg'
    · cases h
      exact absurd hpos (by decide)
    · cases h
      exact ⟨n, s₁, hid, rfl, Int.not_lt.1 hneg, hopen, hpos, rfl⟩
  · rintro ⟨n', s₁', hid', heq, -, hopen', hpos, rfl⟩
    cases heq
    cases hopen.symm.trans hopen'
    rw [if_neg ((hid_pos_iff hid).1 hpos)]
    exact ⟨rfl, hpos⟩

theorem getGrp_zero_iff (hlid : lid > 0) :
    h5.getGrp lid group false s = some (0, s') ↔ h5.lexists lid group s = (0, s') := by
  unfold H5.getGrp
  rcases hlexists : h5.lexists lid group s with ⟨n, s₁⟩
  rw [check_bind_eq_some, and_iff_right hlid, bind_run, call_run, hlexists, Option.bind_some,
    Prod.mk.injEq]
  dsimp only
  split_ifs with hneg hzero hpos
  · refine iff_of_false (fun h => by cases h) fun h => ?_
    omega
  · rw [and_iff_right hzero.1]
    constructor
    · intro h
      cases h
      rfl
    · rintro rfl
      rfl
  · refine iff_of_false (fun h => ?_) fun h => by omega
    obtain ⟨hid, s₂, -, h⟩ := bind_eq_some.1 h
    split_ifs at h
    · cases h
    · exact hid.2 (Prod.mk.inj (Option.some.inj h)).1
  · exact absurd ⟨by omega, rfl⟩ hzero

theorem crtGrp_iff {bkpLid : ℤ} {bkpgroup : CStr} (hlid : lid > 0) (hbkp : bkpLid ≤ 0) :
    (h5.crtGrp lid group bkpLid bkpgroup s = some (gid, s') ∧ gid > 0) ↔
      ∃ s₁ hid, h5.lexists lid group s = (0, s₁) ∧ h5.gcreate lid group s₁ = (hid, s') ∧
        hid.val > 0 ∧ gid = hid.val := by
  unfold H5.crtGrp
  rw [check_bind_eq_some, and_iff_right hlid]
  constructor
  · rintro ⟨h, hpos⟩
    obtain ⟨old, s₁, hget, h⟩ := bind_eq_some.1 h
    split_ifs at h with hneg hold
    · cases h
      exact absurd hpos (by decide)
    · obtain ⟨_, s₂, -, h⟩ := bind_eq_some.1 h
      cases h
      exact absurd hpos (by decide)
    · obtain rfl : old = 0 := by omega
      obtain ⟨hid, s₂, hcreate, h⟩ := bind_eq_some.1 h
      split_ifs at h with hneg'
      · cases h
        exact absurd hpos (by decide)
      · cases h
        exact ⟨s₁, hid, (getGrp_zero_iff hlid).1 hget, Option.some.inj hcreate, hpos, rfl⟩
  · rintro ⟨s₁, hid, hlexists, hcreate, hpos, rfl⟩
    refine ⟨bind_eq_some.2 ⟨0, s₁, (getGrp_zero_iff hlid).2 hlexists, ?_⟩, hpos⟩
    refine bind_eq_some.2 ⟨hid, s', congrArg some hcreate, ?_⟩
    rw [if_neg ((hid_pos_iff hid).1 hpos)]
    rfl

/-- The parts of the initialization that create the group. -/
theorem makesGroup_iff (file : creq.filename = some filename)
    (mode : creq.ovrwtmode.toNat ≠ TES_H5_OVRWT_FILE) : MakesGroup h5 filename group s s' ↔
    ∃ fid rootGid clientGid s₁ s₂ s₃, h5.openFile creq s = some (some fid, s₁) ∧
      (h5.getGrp fid ROOT_GROUP true s₁ = some (rootGid, s₂) ∧ rootGid > 0) ∧
      (h5.crtGrp rootGid group (-1) [] s₂ = some (clientGid, s₃) ∧ clientGid > 0) ∧
      s' = h5.gclose rootGid s₃ := by
  constructor
  · rintro ⟨fok, s₁, fid, s₂, n, s₃, root, s₄, s₅, client, s₆, haccess, hopen, hfid, hn, hpos, hroot,
      hrpos, hm, hclient, hcpos, rfl⟩
    exact ⟨fid, root, client, s₂, s₄, s₆,
      (openFile_iff file mode).2 ⟨fok, s₁, fid, haccess, hopen, hfid, rfl⟩,
      (getGrp_iff hfid).2 ⟨n, s₃, root, hn, hpos, hroot, hrpos, rfl⟩,
      (crtGrp_iff hrpos (by decide)).2 ⟨s₅, client, hm, hclient, hcpos, rfl⟩, rfl⟩
  · rintro ⟨_, _, _, s₂, s₄, s₆, hopened, hgot, hcreated, rfl⟩
    obtain ⟨fok, s₁, fid, haccess, hopen, hfid, rfl⟩ := (openFile_iff file mode).1 hopened
    obtain ⟨n, s₃, root, hn, hpos, hroot, hrpos, rfl⟩ := (getGrp_iff hfid).1 hgot
    obtain ⟨s₅, client, hm, hclient, hcpos, rfl⟩ := (crtGrp_iff hrpos (by decide)).1 hcreated
    exact ⟨fok, s₁, fid, s₂, n, s₃, root, s₄, s₅, client, s₆, haccess, hopen, hfid, hn, hpos, hroot,
      hrpos, hm, hclient, hcpos, rfl⟩

/-! ## What is left -/

open Classical in
/-- The names of the measurement groups in the file when it has been opened. -/
noncomputable def H5.openedNames (h5 : H5 σ) (view : σ → GroupView ι γ) (filename : CStr) (s : σ) :
    Set CStr :=
  if h5.Recreates filename s then ∅ else (view s).names

namespace OpenFile

variable {opened : Option ℤ}

theorem names (h : OpenFile h5 view filename s opened s') :
    (view s').names = h5.openedNames view filename s := by
  unfold H5.openedNames
  cases h with
  | failed hnot hstays => rw [if_neg hnot, GroupView.names_congr hstays.file]
  | found hnot hfile hopens =>
    rw [if_neg hnot, GroupView.names_congr (hopens.file.trans hfile.symm)]
  | created hcreates hempty hopens =>
    rw [if_pos hcreates, GroupView.names_of_file hopens.file, LinkTree.names_of_link hempty]

theorem exists_at {fid : ℤ} (h : OpenFile h5 view filename s (some fid) s') :
    ∃ t, (view s').At t fid t.root := by
  cases h with
  | found _ _ hopens => exact ⟨_, hopens.file, hopens.opened⟩
  | created _ _ hopens => exact ⟨_, hopens.file, hopens.opened⟩

end OpenFile

/-- The group for the measurements has the same members when it has been opened or created. -/
theorem GetsGrp.names {t : LinkTree ι CStr γ} {v v' : GroupView ι γ} {create : Bool}
    (h : GetsGrp t t.root ROOT_GROUP create v gid v') :
    v'.names = t.names ROOT_GROUP ∧ (gid > 0 → ∃ t' c, v'.At t' gid c ∧
      t'.link t'.root ROOT_GROUP = some c) := by
  cases h with
  | failed hleaves =>
    exact ⟨GroupView.names_of_file hleaves.file, fun h => absurd h (by decide)⟩
  | absent _ _ hleaves =>
    exact ⟨GroupView.names_of_file hleaves.file, fun h => absurd h (by decide)⟩
  | found _ hx hopens =>
    exact ⟨GroupView.names_of_file hopens.file, fun _ => ⟨t, _, ⟨hopens.file, hopens.opened⟩, hx⟩⟩
  | created _ _ habsent hfresh hlinks hopens =>
    obtain ⟨hnone, hnone'⟩ := hlinks.names_root habsent hfresh
    rw [GroupView.names_of_file hopens.file, hnone, hnone']
    exact ⟨rfl, fun _ => ⟨_, _, ⟨hopens.file, hopens.opened⟩, by rw [hlinks.root, hlinks.link]⟩⟩

namespace H5.GroupLaws

/-- The groups when the group for the measurements has been opened or created. -/
theorem names_root (laws : h5.GroupLaws filename view) (file : creq.filename = some filename)
    (mode : creq.ovrwtmode.toNat ≠ TES_H5_OVRWT_FILE) {fid rootGid : ℤ} {s₁ s₂ : σ}
    (hopen : h5.openFile creq s = some (some fid, s₁))
    (hroot : h5.getGrp fid ROOT_GROUP true s₁ = some (rootGid, s₂)) :
    (view s₂).names = h5.openedNames view filename s ∧ (rootGid > 0 → ∃ t c,
      (view s₂).At t rootGid c ∧ t.link t.root ROOT_GROUP = some c) := by
  have hopened := laws.openFile file mode hopen
  obtain ⟨t, hat⟩ := hopened.exists_at
  obtain ⟨hnames, hpos⟩ := (laws.getsGrp (by decide) hat hroot).names
  rw [← hopened.names, GroupView.names_of_file hat.file]
  exact ⟨hnames, hpos⟩

/-- The client's group has been created, and is a new one. -/
theorem names_made (laws : h5.GroupLaws filename view) (file : creq.filename = some filename)
    (mode : creq.ovrwtmode.toNat ≠ TES_H5_OVRWT_FILE) (slash : '/' ∉ group)
    {fid rootGid clientGid : ℤ} {s₁ s₂ s₃ : σ} (hopen : h5.openFile creq s = some (some fid, s₁))
    (hroot : h5.getGrp fid ROOT_GROUP true s₁ = some (rootGid, s₂)) (hpos : rootGid > 0)
    (hclient : h5.crtGrp rootGid group (-1) [] s₂ = some (clientGid, s₃)) (hcpos : clientGid > 0) :
    MakesGroup h5 filename group s (h5.gclose rootGid s₃) ∧
      group ∉ h5.openedNames view filename s ∧
      (view (h5.gclose rootGid s₃)).names = insert group (h5.openedNames view filename s) := by
  obtain ⟨hnames, hat⟩ := laws.names_root file mode hopen hroot
  obtain ⟨t, c, hat, hc⟩ := hat hpos
  rw [GroupView.names_of_file hat.file] at hnames
  refine ⟨(makesGroup_iff file mode).2 ⟨_, _, _, _, _, _, hopen, ⟨hroot, hpos⟩, ⟨hclient, hcpos⟩,
    rfl⟩, ?_⟩
  rw [GroupView.names_congr (laws.gclose _ _).file, ← hnames]
  rcases laws.crtGrp_without slash hat (by decide) hclient with
    ⟨hneg, -⟩ | ⟨-, x, t', habsent, -, hlinks, hopens⟩
  · omega
  · constructor
    · rintro ⟨c', o, hc', hlink⟩
      cases hc.symm.trans hc'
      cases habsent.symm.trans hlink
    · rw [GroupView.names_of_file hopens.file, hlinks.names_insert hc habsent]

/-- What comes of an initialization that is not to overwrite anything: the group is not created, and
the file has the measurement groups that it was opened with, or it is created, and is still there if
a data file can not be mapped. -/
theorem init_names (laws : h5.GroupLaws filename view) (file : creq.filename = some filename)
    (mode : creq.ovrwtmode.toNat = TES_H5_OVRWT_NONE) (hgroup : creq.group.getD [] = group)
    (slash : '/' ∉ group) (h : h5.hdf5Init creq.data s = some ((rc, data), s')) :
    ((∀ s₁, ¬ MakesGroup h5 filename group s s₁) ∧ rc ≠ .ok ∧
      (view s').names = h5.openedNames view filename s ∧
      (rc = .eabort → group ∈ h5.openedNames view filename s)) ∨
    (∃ s₁, MakesGroup h5 filename group s s₁ ∧ group ∉ h5.openedNames view filename s ∧
      ((rc = .ok ∧ AllMap h5 (creq.dsets.getD []) s₁) ∨
        (rc = .efail ∧ ¬ AllMap h5 (creq.dsets.getD []) s₁ ∧
          (view s').names = insert group (h5.openedNames view filename s)))) := by
  have hfile : creq.ovrwtmode.toNat ≠ TES_H5_OVRWT_FILE := by rw [mode]; decide
  have hmakes : ∀ {s₁}, MakesGroup h5 filename group s s₁ ↔ _ := makesGroup_iff file hfile
  cases initEnds_of_hdf5Init h with
  | notOpened hopen =>
    refine .inl ⟨fun s₁ hm => ?_, by decide, (laws.openFile file hfile hopen).names,
      fun h => by cases h⟩
    obtain ⟨_, _, _, _, _, _, hopen', -⟩ := hmakes.1 hm
    cases hopen.symm.trans hopen'
  | noRoot hopen hroot hneg =>
    obtain ⟨hnames, -⟩ := laws.names_root file hfile hopen hroot
    refine .inl ⟨fun s₁ hm => ?_, by decide, ?_, fun h => by cases h⟩
    · obtain ⟨_, _, _, _, _, _, hopen', ⟨hroot', hpos⟩, -⟩ := hmakes.1 hm
      cases hopen.symm.trans hopen'
      cases hroot.symm.trans hroot'
      exact absurd hpos (by omega)
    · rw [GroupView.names_congr (laws.fclose _ _).file, hnames]
  | noName hopen hroot hpos hovrwt => cases (ovrwtGrp_none mode _ _).symm.trans hovrwt
  | noGroup hopen hroot hpos hovrwt hclient hneg hrc =>
    cases (ovrwtGrp_none mode _ _).symm.trans hovrwt
    obtain ⟨hnames, hat⟩ := laws.names_root file hfile hopen hroot
    obtain ⟨t, c, hat, hc⟩ := hat hpos
    rw [GroupView.names_of_file hat.file] at hnames
    subst hgroup
    rcases laws.crtGrp_without slash hat (by decide) hclient with
      ⟨-, hthere, hleaves⟩ | ⟨hcpos, -⟩
    · refine .inl ⟨fun s₁ hm => ?_, ?_, ?_, fun habort => ?_⟩
      · obtain ⟨_, _, _, _, _, _, hopen', ⟨hroot', -⟩, ⟨hclient', hcpos⟩, -⟩ := hmakes.1 hm
        cases hopen.symm.trans hopen'
        cases hroot.symm.trans hroot'
        cases hclient.symm.trans hclient'
        omega
      · rw [hrc]
        split_ifs <;> decide
      · rw [closeGroups_neg, GroupView.names_congr (laws.fclose _ _).file,
          GroupView.names_congr (laws.gclose _ _).file, GroupView.names_of_file hleaves.file, hnames]
      · rw [hrc] at habort
        split_ifs at habort with hzero
        obtain ⟨x, hx⟩ := Option.ne_none_iff_exists'.1 (hthere hzero)
        rw [← hnames]
        exact ⟨c, x, hc, hx⟩
    · omega
  | notMapped hopen hroot hpos hovrwt hclient hcpos hmap hrc =>
    cases (ovrwtGrp_none mode _ _).symm.trans hovrwt
    subst hgroup
    obtain ⟨hmade, hnew, hnames⟩ := laws.names_made file hfile slash hopen hroot hpos hclient hcpos
    rw [closeGroups_neg] at hmap
    obtain ⟨hok, -⟩ | ⟨hfail, hnot⟩ := mapFiles_status hmap
    · exact absurd hok hrc
    · refine .inr ⟨_, hmade, hnew, .inr ⟨hfail, hnot, ?_⟩⟩
      rw [GroupView.names_congr (laws.fclose _ _).file,
        GroupView.names_congr (laws.gclose _ _).file,
        GroupView.names_congr (laws.maps.within_mapFiles _ _ _ _ hmap).file, hnames]
  | done hopen hroot hpos hovrwt hclient hcpos hmap =>
    cases (ovrwtGrp_none mode _ _).symm.trans hovrwt
    subst hgroup
    obtain ⟨hmade, hnew, -⟩ := laws.names_made file hfile slash hopen hroot hpos hclient hcpos
    rw [closeGroups_neg] at hmap
    obtain ⟨hok, hall⟩ | ⟨hfail, -⟩ := mapFiles_status hmap
    · exact .inr ⟨_, hmade, hnew, .inl ⟨hok, hall⟩⟩
    · cases hfail

/-- A conversion is refused only if the group is there. -/
theorem there_of_refused (laws : h5.GroupLaws filename view) (file : creq.filename = some filename)
    (mode : creq.ovrwtmode.toNat = TES_H5_OVRWT_NONE) (hgroup : creq.group.getD [] = group)
    (slash : '/' ∉ group) (h : h5.hdf5Init creq.data s = some ((.eabort, data), s')) :
    group ∈ (view s).names := by
  rcases laws.init_names file mode hgroup slash h with
    ⟨-, -, -, hthere⟩ | ⟨s₁, -, -, ⟨hok, -⟩ | ⟨hfail, -⟩⟩
  · have hmem := hthere rfl
    unfold H5.openedNames at hmem
    split_ifs at hmem
    · exact absurd hmem (Set.notMem_empty _)
    · exact hmem
  · cases hok
  · cases hfail

/-- A failed initialization can be forgotten just if the measurement groups are the same. -/
theorem failsCleanly_of_init (laws : h5.GroupLaws filename view)
    (file : creq.filename = some filename) (slash : '/' ∉ creq.group.getD [])
    (h : h5.hdf5Init creq.data s = some ((rc, data), s')) :
    FailsCleanly h5 view creq s ↔ (rc ≠ .ok → (view s').names = (view s).names) := by
  constructor
  · exact fun hclean hrc => (hclean rc data s' h hrc).1
  · intro hnames rc' data' s'' h' hrc
    cases h.symm.trans h'
    refine ⟨hnames hrc, fun creq' s₁ data₁ s₂ hfile _ hfilename hgroup hmode hrefused => ?_⟩
    rw [← hnames hrc, ← GroupView.names_congr hfile]
    exact laws.there_of_refused (hfilename.trans file) hmode (by rw [hgroup]) slash hrefused

end H5.GroupLaws

/-- A failed initialization leaves the measurement groups as they are just if all data files can be
mapped whenever the group is created; or, if the hdf5 file is not found though there are measurement
groups in it, and is created anew, if the group is created and is the only one that there was, or all
data files can be mapped. -/
theorem fails_cleanly_iff (laws : h5.GroupLaws filename view) (valid : creq.Valid)
    (file : creq.filename = some filename) (mode : creq.ovrwtmode.toNat = TES_H5_OVRWT_NONE)
    (slash : '/' ∉ creq.group.getD []) :
    FailsCleanly h5 view creq s ↔
      (h5.Recreates filename s ∧ (view s).names ≠ ∅ →
        ∃ s₁, MakesGroup h5 filename (creq.group.getD []) s s₁ ∧
          (AllMap h5 (creq.dsets.getD []) s₁ ∨ (view s).names = {creq.group.getD []})) ∧
      (¬(h5.Recreates filename s ∧ (view s).names ≠ ∅) →
        ∀ s₁, MakesGroup h5 filename (creq.group.getD []) s s₁ →
          AllMap h5 (creq.dsets.getD []) s₁) := by
  obtain ⟨⟨rc, data⟩, s', hinit, -⟩ := H5.returns_hdf5Init h5 creq.data valid.2 s
  rw [laws.failsCleanly_of_init file slash hinit]
  by_cases hlost : h5.Recreates filename s ∧ (view s).names ≠ ∅
  · have hopened : h5.openedNames view filename s = ∅ := if_pos hlost.1
    rw [and_iff_left fun h => absurd hlost h, forall_prop_of_true hlost]
    rcases laws.init_names file mode rfl slash hinit with
      ⟨hnot, hrc, hnames, -⟩ | ⟨s₁, hmakes, -, ⟨rfl, hall⟩ | ⟨rfl, hnot, hnames⟩⟩
    · rw [hnames, hopened]
      exact iff_of_false (fun h => hlost.2 (h hrc).symm) fun ⟨s₁, hmakes, _⟩ => hnot s₁ hmakes
    · exact iff_of_true (fun h => absurd rfl h) ⟨s₁, hmakes, .inl hall⟩
    · rw [hnames, hopened, insert_empty_eq]
      constructor
      · exact fun h => ⟨s₁, hmakes, .inr (h (by decide)).symm⟩
      · rintro ⟨s₁', hmakes', h⟩ -
        obtain rfl := hmakes.unique hmakes'
        exact (h.resolve_left hnot).symm
  · have hopened : h5.openedNames view filename s = (view s).names := by
      unfold H5.openedNames
      split_ifs with hcreates
      · by_contra hne
        exact hlost ⟨hcreates, Ne.symm hne⟩
      · rfl
    rw [and_iff_right fun h => absurd h hlost, forall_prop_of_true hlost]
    rcases laws.init_names file mode rfl slash hinit with
      ⟨hnot, -, hnames, -⟩ | ⟨s₁, hmakes, hnew, ⟨rfl, hall⟩ | ⟨rfl, hnot, hnames⟩⟩
    · rw [hnames, hopened]
      exact iff_of_true (fun _ => rfl) fun s₁ hmakes => absurd hmakes (hnot s₁)
    · refine iff_of_true (fun h => absurd rfl h) fun s₁' hmakes' => ?_
      obtain rfl := hmakes.unique hmakes'
      exact hall
    · rw [hnames, hopened]
      rw [hopened] at hnew
      refine iff_of_false (fun h => hnew ?_) fun h => hnot (h s₁ hmakes)
      rw [← h (by decide)]
      exact Set.mem_insert _ _

/-! ## Requests that are run on the reference -/

namespace World

/-- How the initialization ends, and the hdf5 file then. -/
def initialized (disk : List (CStr × List UInt8)) (creq : ConvReq) (s : World) :
    Option (CapStatus × Option Store) :=
  ((calls disk).hdf5Init creq.data s).map fun r => (r.1.1, r.2.file)

end World

/-- A conversion is refused, as there is the group. -/
theorem fails_cleanly_iff_refused :
    FailsCleanly (World.calls []) World.groupView (reqOf fileAndBuffer) World.holding ∧
    World.initialized [] (reqOf fileAndBuffer) World.holding =
      some (.eabort, World.holding.file) := by
  refine ⟨(fails_cleanly_iff (World.groupLaws [] "a.hdf5".toList) (by decide) rfl rfl
    (by decide)).2 ⟨fun h => ?_, fun _ s₁ hmakes => ?_⟩, by decide +kernel⟩
  · cases h.1.1
  · obtain ⟨fok, s₁, fid, s₂, n, s₃, root, s₄, s₅, client, s₆, haccess, hopen, -, hn, -, hroot, -,
      hm, -⟩ := hmakes
    cases haccess
    cases hopen
    cases hn
    cases hroot
    exact absurd (show (_ : ℤ) = 0 from congrArg Prod.fst hm) (by decide +kernel)

/-- The data files are missing: the group is left, and was not there before. -/
theorem not_fails_cleanly : ¬ ∀ (h5 : H5 World)
    (view : World → GroupView ℕ (CStr → Option (List UInt8))) (filename : CStr) (creq : ConvReq)
    (s : World), h5.GroupLaws filename view → creq.Valid → creq.filename = some filename →
    creq.ovrwtmode.toNat = TES_H5_OVRWT_NONE → '/' ∉ creq.group.getD [] →
    FailsCleanly h5 view creq s := by
  intro h
  have hclean := h (World.calls []) World.groupView "a.hdf5".toList (reqOf fileAndBuffer) World.start
    (World.groupLaws [] _) (by decide) rfl rfl (by decide)
  have hleft : World.initialized [] (reqOf fileAndBuffer) World.start =
      some (.efail, some ⟨[((1, "m".toList), 2), ((0, ROOT_GROUP), 1)], []⟩) := by decide +kernel
  obtain ⟨⟨⟨rc, data⟩, s'⟩, hinit, hr⟩ := Option.map_eq_some_iff.1 hleft
  obtain ⟨rfl, hfile⟩ := Prod.mk.inj hr
  obtain ⟨hnames, -⟩ := hclean .efail data s' hinit (by decide)
  have hthere : "m".toList ∈ s'.groupView.names := by
    rw [GroupView.names_of_file (congrArg (Option.map Store.tree) hfile)]
    exact ⟨1, 2, rfl, rfl⟩
  rw [hnames] at hthere
  obtain ⟨t, ht, -⟩ := hthere
  cases ht

end Tesd
