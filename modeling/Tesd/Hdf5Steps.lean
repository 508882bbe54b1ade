import Tesd.Hdf5Conv

/-!
# The steps of a conversion

What every call to the library and to the system preserves, the parts of a conversion preserve; and
the ways in which `s_hdf5_init` ends.
-/

namespace Tesd

open Asserting

variable {σ : Type} {h5 : H5 σ} {ddesc : DsetDesc} {ddescs : List DsetDesc} {creq : ConvReq}
  {data data' : CreqData} {rc : CapStatus} {gid : ℤ} {s s' : σ}

/-! ## What the calls preserve -/

/-- Every call for the mapping of a data file is in this relation. -/
structure H5.MapSteps (h5 : H5 σ) (R : σ → σ → Prop) : Prop where
  refl s : R s s
  trans s₁ s₂ s₃ : R s₁ s₂ → R s₂ s₃ → R s₁ s₃
  openFd f s : R s (h5.openFd f s).2
  lseekEnd fd s : R s (h5.lseekEnd fd s).2
  closeFd fd s : R s (h5.closeFd fd s)
  mmap length fd s : R s (h5.mmap length fd s).2

/-- Every call from the opening of the hdf5 file to the closing of a dataset is in this relation. -/
structure H5.Steps (h5 : H5 σ) (R : σ → σ → Prop) : Prop extends h5.MapSteps R where
  fopen f s : R s (h5.fopen f s).2
  fcreate f s : R s (h5.fcreate f s).2
  fclose fid s : R s (h5.fclose fid s)
  lexists lid group s : R s (h5.lexists lid group s).2
  lcopy lid group dst dstgroup s : R s (h5.lcopy lid group dst dstgroup s).2
  ldelete lid group s : R s (h5.ldelete lid group s).2
  gopen lid group s : R s (h5.gopen lid group s).2
  gcreate lid group s : R s (h5.gcreate lid group s).2
  gclose gid s : R s (h5.gclose gid s)
  screate length s : R s (h5.screate length s).2
  sclose dspace s : R s (h5.sclose dspace s)
  dcreate gid dsetname dspace s : R s (h5.dcreate gid dsetname dspace s).2
  dwrite dset data s : R s (h5.dwrite dset data s).2
  dclose dset s : R s (h5.dclose dset s)
  access f s : R s (h5.access f s).2
  unlink f s : R s (h5.unlink f s).2
  time s : R s (h5.time s).2

variable {R : σ → σ → Prop}

namespace H5.MapSteps

theorem within_mapFd (steps : h5.MapSteps R) (ddesc : DsetDesc) (fd fsize : ℕ) :
    Within R (h5.mapFd ddesc fd fsize) := by
  have hclose := fun {α : Type} (x : α) => (within_act (steps.closeFd fd)).bind steps.trans
    fun _ => within_pure steps.refl x
  refine within_ite (hclose _) ?_
  refine (within_check steps.refl _).bind steps.trans fun _ => ?_
  refine (within_check steps.refl _).bind steps.trans fun _ => ?_
  refine (within_check steps.refl _).bind steps.trans fun _ => ?_
  refine (within_check steps.refl _).bind steps.trans fun _ => ?_
  refine (within_call (steps.mmap _ fd)).bind steps.trans fun addr => ?_
  refine (within_act (steps.closeFd fd)).bind steps.trans fun _ => ?_
  cases addr <;> exact within_pure steps.refl _

theorem within_mapFile (steps : h5.MapSteps R) (ddesc : DsetDesc) : Within R (h5.mapFile ddesc) := by
  refine (within_check steps.refl _).bind steps.trans fun _ => ?_
  refine (within_check steps.refl _).bind steps.trans fun _ => ?_
  refine within_ite (within_pure steps.refl _) ?_
  refine (within_call (steps.openFd _)).bind steps.trans fun fd => ?_
  cases fd with
  | none => exact within_pure steps.refl _
  | some fd =>
    refine (within_call (steps.lseekEnd fd)).bind steps.trans fun fsize => ?_
    cases fsize with
    | none => exact (within_act (steps.closeFd fd)).bind steps.trans fun _ => within_pure steps.refl _
    | some fsize => exact steps.within_mapFd ddesc fd fsize

theorem within_mapFiles (steps : h5.MapSteps R) (ddescs : List DsetDesc) :
    Within R (h5.mapFiles ddescs) := by
  induction ddescs with
  | nil => exact within_pure steps.refl _
  | cons ddesc ddescs ih =>
    refine Within.bind steps.trans ?_ fun r => ?_
    · exact within_ite (within_pure steps.refl _) (steps.within_mapFile ddesc)
    · exact within_ite (within_pure steps.refl _)
        (ih.bind steps.trans fun _ => within_pure steps.refl _)

end H5.MapSteps

namespace H5.Steps

theorem within_getGrp (steps : h5.Steps R) (lid : ℤ) (group : CStr) (create : Bool) :
    Within R (h5.getGrp lid group create) := by
  refine (within_check steps.refl _).bind steps.trans fun _ => ?_
  refine (within_call (steps.lexists lid group)).bind steps.trans fun gstat => ?_
  refine within_ite (within_pure steps.refl _) (within_ite (within_pure steps.refl _) ?_)
  refine Within.bind steps.trans ?_ fun gid => ?_
  · exact within_ite (within_call (steps.gopen lid group)) (within_call (steps.gcreate lid group))
  · exact within_ite (within_pure steps.refl _) (within_pure steps.refl _)

theorem within_newGrp (steps : h5.Steps R) (lid : ℤ) (group : CStr) :
    Within R (h5.newGrp lid group) := by
  refine (within_call (steps.gcreate lid group)).bind steps.trans fun gid => ?_
  exact within_ite (within_pure steps.refl _) (within_pure steps.refl _)

theorem within_checkNoGrp (steps : h5.Steps R) (lid : ℤ) (group : CStr) (err : ℤ) :
    Within R (h5.checkNoGrp lid group err) := by
  refine (steps.within_getGrp lid group false).bind steps.trans fun gid => ?_
  refine within_ite ?_ (within_pure steps.refl _)
  exact (within_act (steps.gclose gid)).bind steps.trans fun _ => within_pure steps.refl _

theorem within_renameGrp (steps : h5.Steps R) (lid : ℤ) (group : CStr) (bkpLid : ℤ)
    (bkpgroup : CStr) : Within R (h5.renameGrp lid group bkpLid bkpgroup) := by
  refine (within_check steps.refl _).bind steps.trans fun _ => ?_
  refine (steps.within_checkNoGrp bkpLid bkpgroup 0).bind steps.trans fun err => ?_
  refine Within.bind steps.trans ?_ fun err => Within.bind steps.trans ?_ fun err => ?_
  · exact within_ite (within_call (steps.lcopy lid group bkpLid bkpgroup)) (within_pure steps.refl _)
  · exact within_ite (within_call (steps.ldelete lid group)) (within_pure steps.refl _)
  · exact steps.within_checkNoGrp lid group err

theorem within_crtGrp (steps : h5.Steps R) (lid : ℤ) (group : CStr) (bkpLid : ℤ)
    (bkpgroup : CStr) : Within R (h5.crtGrp lid group bkpLid bkpgroup) := by
  refine (within_check steps.refl _).bind steps.trans fun _ => ?_
  refine (steps.within_getGrp lid group false).bind steps.trans fun gid => ?_
  refine within_ite (within_pure steps.refl _) (within_ite ?_ (steps.within_newGrp lid group))
  refine (within_act (steps.gclose gid)).bind steps.trans fun _ => ?_
  refine within_ite (within_pure steps.refl _) ?_
  refine (steps.within_renameGrp lid group bkpLid bkpgroup).bind steps.trans fun err => ?_
  exact within_ite (within_pure steps.refl _) (steps.within_newGrp lid group)

theorem within_openFile (steps : h5.Steps R) (creq : ConvReq) : Within R (h5.openFile creq) := by
  refine (within_call (steps.access _)).bind steps.trans fun fok => ?_
  refine Within.bind steps.trans ?_ fun removed => within_ite (within_pure steps.refl _) ?_
  · exact within_ite (within_call (steps.unlink _)) (within_pure steps.refl _)
  refine Within.bind steps.trans ?_ fun fid => ?_
  · exact within_ite (within_call (steps.fopen _)) (within_call (steps.fcreate _))
  · exact within_ite (within_pure steps.refl _) (within_pure steps.refl _)

theorem within_ovrwtGrp (steps : h5.Steps R) (creq : ConvReq) (fid : ℤ) :
    Within R (h5.ovrwtGrp creq fid) := by
  refine within_ite ?_ (within_pure steps.refl _)
  refine (steps.within_getGrp fid OVRWT_GROUP true).bind steps.trans fun gid => ?_
  refine within_ite (within_pure steps.refl _) ?_
  refine (within_check steps.refl _).bind steps.trans fun _ => ?_
  refine (within_call steps.time).bind steps.trans fun tnow => ?_
  cases tnow with
  | none => exact within_pure steps.refl _
  | some tnow => exact within_ite (within_pure steps.refl _) (within_pure steps.refl _)

theorem within_createDset (steps : h5.Steps R) (ddesc : DsetDesc) (gid : ℤ) :
    Within R (h5.createDset ddesc gid) := by
  refine (within_check steps.refl _).bind steps.trans fun _ => ?_
  refine (within_check steps.refl _).bind steps.trans fun _ => ?_
  refine (within_call (steps.screate _)).bind steps.trans fun dspace => ?_
  have hclose := fun {α : Type} (x : α) => (within_act (steps.sclose dspace)).bind steps.trans
    fun _ => within_pure steps.refl x
  refine within_ite (within_pure steps.refl _) ?_
  refine (within_call (steps.dcreate gid _ dspace)).bind steps.trans fun dset => ?_
  have hcloses := fun {α : Type} (x : α) => (within_act (steps.dclose dset)).bind steps.trans
    fun _ => hclose x
  refine within_ite (hclose _) (within_ite (hcloses _) ?_)
  refine (within_check steps.refl _).bind steps.trans fun _ => ?_
  refine (within_check steps.refl _).bind steps.trans fun _ => ?_
  refine (within_call (steps.dwrite dset _)).bind steps.trans fun err => ?_
  exact hcloses _

end H5.Steps

/-! ## The ways in which the initialization ends -/

/-- The groups are closed that the initialization has opened besides the client's. -/
def H5.closeGroups (h5 : H5 σ) (rootGid ovrwtGid : ℤ) (s : σ) : σ :=
  (if ovrwtGid > 0 then h5.gclose ovrwtGid else id) (h5.gclose rootGid s)

/-- `s_hdf5_init` returns a status, and leaves data and a state. -/
inductive InitEnds (h5 : H5 σ) (data : CreqData) (s : σ) : CapStatus → CreqData → σ → Prop
  | notOpened {s₁ : σ} : h5.openFile data.creq s = some (none, s₁) →
      InitEnds h5 data s .efail data s₁
  | noRoot {fid rootGid : ℤ} {s₁ s₂ : σ} : h5.openFile data.creq s = some (some fid, s₁) →
      h5.getGrp fid ROOT_GROUP true s₁ = some (rootGid, s₂) → rootGid < 0 →
      InitEnds h5 data s .efail data (h5.fclose fid s₂)
  | noName {fid rootGid ovrwtGid : ℤ} {s₁ s₂ s₃ : σ} :
      h5.openFile data.creq s = some (some fid, s₁) →
      h5.getGrp fid ROOT_GROUP true s₁ = some (rootGid, s₂) → rootGid > 0 →
      h5.ovrwtGrp data.creq fid s₂ = some ((ovrwtGid, none), s₃) →
      InitEnds h5 data s .efail data (h5.fclose fid (h5.closeGroups rootGid ovrwtGid s₃))
  | noGroup {fid rootGid ovrwtGid clientGid : ℤ} {bkpgroup : CStr} {s₁ s₂ s₃ s₄ : σ}
      {rc : CapStatus} :
      h5.openFile data.creq s = some (some fid, s₁) →
      h5.getGrp fid ROOT_GROUP true s₁ = some (rootGid, s₂) → rootGid > 0 →
      h5.ovrwtGrp data.creq fid s₂ = some ((ovrwtGid, some bkpgroup), s₃) →
      h5.crtGrp rootGid (data.creq.group.getD []) ovrwtGid bkpgroup s₃ = some (clientGid, s₄) →
      clientGid ≤ 0 → rc = (if clientGid = 0 then .eabort else .efail) →
      InitEnds h5 data s rc data (h5.fclose fid (h5.closeGroups rootGid ovrwtGid s₄))
  | notMapped {fid rootGid ovrwtGid clientGid : ℤ} {bkpgroup : CStr} {s₁ s₂ s₃ s₄ s₅ : σ}
      {rc : CapStatus} {dsets : List DsetDesc} :
      h5.openFile data.creq s = some (some fid, s₁) →
      h5.getGrp fid ROOT_GROUP true s₁ = some (rootGid, s₂) → rootGid > 0 →
      h5.ovrwtGrp data.creq fid s₂ = some ((ovrwtGid, some bkpgroup), s₃) →
      h5.crtGrp rootGid (data.creq.group.getD []) ovrwtGid bkpgroup s₃ = some (clientGid, s₄) →
      clientGid > 0 →
      h5.mapFiles data.dsets (h5.closeGroups rootGid ovrwtGid s₄) = some ((rc, dsets), s₅) →
      rc ≠ .ok → InitEnds h5 data s rc { data with dsets := dsets }
        (h5.fclose fid (h5.gclose clientGid s₅))
  | done {fid rootGid ovrwtGid clientGid : ℤ} {bkpgroup : CStr} {s₁ s₂ s₃ s₄ s₅ : σ}
      {dsets : List DsetDesc} :
      h5.openFile data.creq s = some (some fid, s₁) →
      h5.getGrp fid ROOT_GROUP true s₁ = some (rootGid, s₂) → rootGid > 0 →
      h5.ovrwtGrp data.creq fid s₂ = some ((ovrwtGid, some bkpgroup), s₃) →
      h5.crtGrp rootGid (data.creq.group.getD []) ovrwtGid bkpgroup s₃ = some (clientGid, s₄) →
      clientGid > 0 →
      h5.mapFiles data.dsets (h5.closeGroups rootGid ovrwtGid s₄) = some ((.ok, dsets), s₅) →
      InitEnds h5 data s .ok { data with dsets := dsets, groupId := clientGid, fileId := fid } s₅

theorem initEnds_of_hdf5Init (h : h5.hdf5Init data s = some ((rc, data'), s')) :
    InitEnds h5 data s rc data' s' := by
  obtain ⟨opened, s₁, hopen, h⟩ := bind_eq_some.1 h
  cases opened with
  | none =>
    cases h
    exact .notOpened hopen
  | some fid =>
    obtain ⟨rootGid, s₂, hroot, h⟩ := bind_eq_some.1 h
    dsimp only at h
    split_ifs at h with hneg
    · cases h
      exact .noRoot hopen hroot hneg
    · rw [check_bind_eq_some] at h
      obtain ⟨hpos, h⟩ := h
      obtain ⟨⟨ovrwtGid, bkpgroup⟩, s₃, hovrwt, h⟩ := bind_eq_some.1 h
      cases bkpgroup with
      | none =>
        cases h
        exact .noName hopen hroot hpos hovrwt
      | some bkpgroup =>
        obtain ⟨clientGid, s₄, hclient, h⟩ := bind_eq_some.1 h
        obtain ⟨_, s₄', hclose, h⟩ := bind_eq_some.1 h
        cases hclose
        obtain ⟨_, s₄', hclose, h⟩ := bind_eq_some.1 h
        cases hclose
        by_cases hnone : clientGid ≤ 0
        · rw [if_pos hnone] at h
          cases h
          exact .noGroup hopen hroot hpos hovrwt hclient hnone rfl
        · rw [if_neg hnone] at h
          obtain ⟨⟨rc', dsets⟩, s₅, hmap, h⟩ := bind_eq_some.1 h
          dsimp only at h
          split_ifs at h with hrc
          · cases h
            exact .notMapped hopen hroot hpos hovrwt hclient (Int.not_le.1 hnone) hmap hrc
          · obtain rfl := not_not.1 hrc
            cases h
            exact .done hopen hroot hpos hovrwt hclient (Int.not_le.1 hnone) hmap

/-! ## Without a backup -/

theorem ovrwtGrp_none (mode : creq.ovrwtmode.toNat = TES_H5_OVRWT_NONE) (fid : ℤ) (s : σ) :
    h5.ovrwtGrp creq fid s = some ((-1, some []), s) := by
  unfold H5.ovrwtGrp
  rw [if_neg (by rw [mode]; decide)]
  rfl

theorem closeGroups_neg (rootGid : ℤ) (s : σ) :
    h5.closeGroups rootGid (-1) s = h5.gclose rootGid s := by
  rw [H5.closeGroups, if_neg (by decide)]
  rfl

end Tesd
