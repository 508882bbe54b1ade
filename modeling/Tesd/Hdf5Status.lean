import Tesd.Hdf5Conv

/-!
# The status of a conversion

Whether `hdf5_conv`, when it does not fork, returns the error of the first step that fails.  The
initialization of a valid request fails no assertion and its status is returned; but `s_hdf5_write`
always returns 0, as the status of a dataset is kept in a variable of the loop's body.
-/

namespace Tesd

open Asserting

variable {σ : Type} {h5 : H5 σ} {ddesc ddesc' : DsetDesc} {ddescs : List DsetDesc}
  {creq : ConvReq} {data : CreqData} {group bkpgroup : CStr} {lid bkpLid gid fid : ℤ} {s s' : σ}

/-! ## Initialization -/

/-- The assertions of `s_create_dset` hold. -/
def DsetDesc.Ready (ddesc : DsetDesc) : Prop :=
  ddesc.dsetname ≠ none ∧ (if ddesc.buffer = none then ddesc.length = 0 else ddesc.length > 0) ∧
    (ddesc.length ≠ 0 → ddesc.offset ≥ 0)

/-- What becomes of the description of a dataset when its file is mapped. -/
def DsetDesc.MapsTo (ddesc ddesc' : DsetDesc) : Prop :=
  if ddesc.filename = none then ddesc' = ddesc
  else ddesc'.dsetname = ddesc.dsetname ∧ (ddesc.dsetname ≠ none → ddesc'.Ready)

namespace H5

theorem returns_getGrp (create : Bool) (hlid : lid > 0) :
    Returns (h5.getGrp lid group create) fun gid => create = true → gid ≠ 0 := by
  refine returns_check_bind hlid (returns_call_bind fun gstat => ?_)
  refine returns_ite (fun _ => returns_pure fun _ => by decide) fun _ => ?_
  refine returns_ite (fun h => returns_pure fun hc => by simp [hc] at h) fun _ => ?_
  refine (returns_ite (fun _ => returns_always) fun _ => returns_always).bind fun gid _ => ?_
  exact returns_ite (fun _ => returns_pure fun _ => by decide) fun _ => returns_pure fun _ => gid.2

theorem returns_newGrp : Returns (h5.newGrp lid group) fun _ => True :=
  returns_call_bind fun _ => returns_ite (fun _ => returns_pure trivial) fun _ =>
    returns_pure trivial

theorem returns_checkNoGrp (err : ℤ) (hlid : lid > 0) :
    Returns (h5.checkNoGrp lid group err) fun _ => True := by
  refine (returns_getGrp false hlid).bind fun gid _ => returns_ite (fun _ => ?_) fun _ => ?_
  · exact returns_act_bind (returns_pure trivial)
  · exact returns_pure trivial

theorem returns_renameGrp (hlid : lid > 0) (hbkp : bkpLid > 0) (hname : bkpgroup ≠ []) :
    Returns (h5.renameGrp lid group bkpLid bkpgroup) fun _ => True := by
  refine returns_check_bind hname ((returns_checkNoGrp 0 hbkp).bind fun err _ => ?_)
  refine (returns_ite (fun _ => returns_always) fun _ => returns_pure trivial).bind fun err _ => ?_
  refine (returns_ite (fun _ => returns_always) fun _ => returns_pure trivial).bind fun err _ => ?_
  exact returns_checkNoGrp err hlid

theorem returns_crtGrp (hlid : lid > 0) (hbkp : bkpLid > 0 → bkpgroup ≠ []) :
    Returns (h5.crtGrp lid group bkpLid bkpgroup) fun _ => True := by
  refine returns_check_bind hlid ((returns_getGrp false hlid).bind fun gid _ => ?_)
  refine returns_ite (fun _ => returns_pure trivial) fun _ => ?_
  refine returns_ite (fun _ => returns_act_bind ?_) fun _ => returns_newGrp
  refine returns_ite (fun _ => returns_pure trivial) fun hpos => ?_
  have hbkpLid : bkpLid > 0 := Int.not_le.1 hpos
  exact (returns_renameGrp hlid hbkpLid (hbkp hbkpLid)).bind fun err _ =>
    returns_ite (fun _ => returns_pure trivial) fun _ => returns_newGrp

/-- A description that the size of its file has been used for has an offset in the file. -/
theorem returns_mapFd (fd fsize : ℕ) (unmapped : ddesc.buffer = none) (nonzero : ddesc.length ≠ 0) :
    Returns (h5.mapFd ddesc fd fsize) fun r => r.1 = .ok →
      r.2.dsetname = ddesc.dsetname ∧ (ddesc.dsetname ≠ none → r.2.Ready) := by
  obtain ⟨offset, hoffset⟩ : ∃ offset, (if ddesc.offset < 0 then ddesc.offset + fsize
    else ddesc.offset) = offset := ⟨_, rfl⟩
  unfold mapFd
  dsimp only
  rw [hoffset]
  refine returns_ite (fun _ => returns_act_bind (returns_pure fun _ => ⟨rfl, fun hname => ?_⟩))
    fun hinside => ?_
  · exact ⟨hname, by simp [unmapped], fun h => absurd rfl h⟩
  · simp only [not_or, Int.not_lt, ge_iff_le, Int.not_le] at hinside
    obtain ⟨hsize, hbefore, hpos⟩ := hinside
    obtain ⟨length, hlength⟩ : ∃ length, (if ddesc.length < 0 ∨ ddesc.length > fsize - offset
      then fsize - offset else ddesc.length) = length := ⟨_, rfl⟩
    have hlong : length > 0 := by
      rw [← hlength]
      split_ifs <;> omega
    rw [hlength]
    refine returns_check_bind hpos (returns_check_bind (Nat.pos_of_ne_zero hsize) ?_)
    refine returns_check_bind (by omega) (returns_check_bind hlong ?_)
    refine returns_call_bind fun addr => returns_act_bind ?_
    cases addr with
    | none => exact returns_pure fun h => by cases h
    | some addr => exact returns_pure fun _ => ⟨rfl, fun hname => ⟨hname, hlong, fun _ => hpos⟩⟩

theorem returns_mapFile (file : ddesc.filename ≠ none) (unmapped : ddesc.buffer = none) :
    Returns (h5.mapFile ddesc) fun r => r.1 = .ok →
      r.2.dsetname = ddesc.dsetname ∧ (ddesc.dsetname ≠ none → r.2.Ready) := by
  refine returns_check_bind file (returns_check_bind unmapped ?_)
  refine returns_ite (fun hzero => returns_pure fun _ => ⟨rfl, fun hname => ?_⟩) fun hlength => ?_
  · exact ⟨hname, by rw [if_pos unmapped]; exact hzero, fun h => absurd hzero h⟩
  · refine returns_call_bind fun fd => ?_
    cases fd with
    | none => exact returns_pure fun h => by cases h
    | some fd =>
      refine returns_call_bind fun fsize => ?_
      cases fsize with
      | none => exact returns_act_bind (returns_pure fun h => by cases h)
      | some fsize => exact returns_mapFd fd fsize unmapped hlength

theorem returns_mapFiles (h5 : H5 σ) (valid : ∀ ddesc ∈ ddescs, ddesc.Valid) :
    Returns (h5.mapFiles ddescs) fun r => r.1 = .ok →
      List.Forall₂ DsetDesc.MapsTo ddescs r.2 := by
  induction ddescs with
  | nil => exact returns_pure fun _ => .nil
  | cons ddesc ddescs ih =>
    rw [List.forall_mem_cons] at valid
    have hfirst : Returns (if ddesc.filename = none then pure (.ok, ddesc) else h5.mapFile ddesc)
        fun r => r.1 = .ok → ddesc.MapsTo r.2 := by
      refine returns_ite (fun hfile => returns_pure fun _ => ?_) fun hfile => ?_
      · rw [DsetDesc.MapsTo, if_pos hfile]
      · have hbuffer : ddesc.buffer = none := by
          by_contra hbuffer
          exact valid.1 (by simp [hfile, hbuffer])
        refine (returns_mapFile hfile hbuffer).mono fun r hr hok => ?_
        rw [DsetDesc.MapsTo, if_neg hfile]
        exact hr hok
    refine hfirst.bind fun r hr => ?_
    refine returns_ite (fun hrc => returns_pure fun h => absurd h hrc) fun hrc => ?_
    refine (ih valid.2).bind fun rest hrest => returns_pure fun hok => ?_
    exact .cons (hr (not_not.1 hrc)) (hrest hok)

theorem returns_openFile (h5 : H5 σ) (creq : ConvReq) :
    Returns (h5.openFile creq) fun r => ∀ fid, r = some fid → fid > 0 := by
  refine returns_call_bind fun fok => ?_
  refine (returns_ite (fun _ => returns_always) fun _ => returns_pure trivial).bind fun removed _ => ?_
  refine returns_ite (fun _ => returns_pure fun _ h => by cases h) fun _ => ?_
  refine (returns_ite (fun _ => returns_always) fun _ => returns_always).bind fun fid _ => ?_
  refine returns_ite (fun _ => returns_pure fun _ h => by cases h) fun hpos => returns_pure ?_
  intro _ h
  obtain rfl := Option.some.inj h
  have hne := fid.2
  omega

theorem returns_ovrwtGrp (h5 : H5 σ) (creq : ConvReq) (hfid : fid > 0) :
    Returns (h5.ovrwtGrp creq fid) fun r => ∀ bkpgroup, r.2 = some bkpgroup → r.1 > 0 →
      bkpgroup ≠ [] := by
  refine returns_ite (fun _ => ?_) fun _ => returns_pure fun _ _ hpos => by cases hpos
  refine (returns_getGrp true hfid).bind fun gid hgid => ?_
  refine returns_ite (fun _ => returns_pure fun _ h => by cases h) fun hneg => ?_
  have hne := hgid rfl
  refine returns_check_bind (by omega) (returns_call_bind fun tnow => ?_)
  cases tnow with
  | none => exact returns_pure fun _ h => by cases h
  | some tnow =>
    refine returns_ite (fun _ => returns_pure fun _ h => by cases h) fun _ => returns_pure ?_
    intro bkpgroup h _
    obtain rfl := Option.some.inj h
    simp

/-- No assertion fails in the initialization of a valid request; the descriptions of the datasets
are those of the request, with the files mapped. -/
theorem returns_hdf5Init (h5 : H5 σ) (data : CreqData) (valid : ∀ ddesc ∈ data.dsets, ddesc.Valid) :
    Returns (h5.hdf5Init data) fun r => r.1 = .ok →
      List.Forall₂ DsetDesc.MapsTo data.dsets r.2.dsets := by
  refine (returns_openFile h5 data.creq).bind fun opened hopened => ?_
  cases opened with
  | none => exact returns_pure fun h => by cases h
  | some fid =>
    have hfid : fid > 0 := hopened fid rfl
    refine (returns_getGrp true hfid).bind fun rootGid hroot => ?_
    have hne := hroot rfl
    refine returns_ite (fun _ => returns_act_bind (returns_pure fun h => by cases h)) fun hneg => ?_
    have hpos : rootGid > 0 := by omega
    refine returns_check_bind hpos ((returns_ovrwtGrp h5 data.creq hfid).bind fun r hbkp => ?_)
    obtain ⟨ovrwtGid, bkpgroup⟩ := r
    cases bkpgroup with
    | none =>
      exact returns_act_bind (returns_act_bind (returns_act_bind (returns_pure fun h => by cases h)))
    | some bkpgroup =>
      refine (returns_crtGrp hpos (hbkp bkpgroup rfl)).bind fun clientGid _ => ?_
      refine returns_act_bind (returns_act_bind ?_)
      refine returns_ite (fun _ => returns_act_bind (returns_pure fun h => ?_)) fun _ => ?_
      · dsimp only at h
        split_ifs at h
      · refine (returns_mapFiles h5 valid).bind fun mapped hmapped => ?_
        refine returns_ite (fun hrc => ?_) fun hrc => ?_
        · exact returns_act_bind (returns_act_bind (returns_pure fun h => absurd h hrc))
        · exact returns_pure fun _ => hmapped (not_not.1 hrc)

theorem returns_unmapFile : Returns (h5.unmapFile ddesc) fun _ => True := by
  unfold unmapFile
  split
  · exact returns_act_bind (returns_pure trivial)
  · exact returns_pure trivial

theorem returns_unmap (h5 : H5 σ) (ddescs : List DsetDesc) :
    Returns (h5.unmap ddescs) fun _ => True := by
  induction ddescs with
  | nil => exact returns_pure trivial
  | cons ddesc ddescs ih =>
    exact returns_unmapFile.bind fun _ _ => ih.bind fun _ _ => returns_pure trivial

end H5

/-- The assertions about a dataset fail just if it is given as a buffer of length zero. -/
theorem DsetDesc.MapsTo.ready_iff (h : ddesc.MapsTo ddesc') (valid : ddesc.Valid) :
    ddesc'.Ready ↔ (ddesc.buffer ≠ none → ddesc.length ≠ 0) := by
  unfold Valid at valid
  simp only [not_or, not_and, not_not, Int.not_lt] at valid
  obtain ⟨hname, -, hboth, hone, hbuffer⟩ := valid
  unfold MapsTo at h
  split_ifs at h with hfile
  · subst h
    have hsome := hone hfile
    obtain ⟨hoffset, hlength⟩ := hbuffer hsome
    unfold Ready
    rw [if_neg hsome]
    constructor
    · rintro ⟨-, hpos, -⟩ -
      exact ne_of_gt hpos
    · intro hne
      exact ⟨hname, lt_of_le_of_ne hlength (Ne.symm (hne hsome)), fun _ => hoffset⟩
  · exact iff_of_true (h.2 hname) fun hsome => absurd (hboth hfile) hsome

theorem ready_all_iff {ddescs' : List DsetDesc} (h : List.Forall₂ DsetDesc.MapsTo ddescs ddescs')
    (valid : ∀ ddesc ∈ ddescs, ddesc.Valid) : (∀ ddesc ∈ ddescs', ddesc.Ready) ↔
      ∀ ddesc ∈ ddescs, ddesc.buffer ≠ none → ddesc.length ≠ 0 := by
  induction h with
  | nil => exact iff_of_true (fun _ h => absurd h List.not_mem_nil) fun _ h =>
      absurd h List.not_mem_nil
  | cons hfirst _ ih =>
    rw [List.forall_mem_cons] at valid
    rw [List.forall_mem_cons, List.forall_mem_cons, hfirst.ready_iff valid.1, ih valid.2]

/-! ## Datasets -/

/-- The dataset is created and its data are written, as far as the library says. -/
def Written (h5 : H5 σ) (ddesc : DsetDesc) (gid : ℤ) (s s' : σ) : Prop :=
  let (dspace, s₁) := h5.screate ddesc.length s
  let (dset, s₂) := h5.dcreate gid (ddesc.dsetname.getD []) dspace s₁
  let (err, s₃) := h5.dwrite dset (ddesc.buffer.getD 0 + ddesc.offset) s₂
  dspace.val > 0 ∧ dset.val > 0 ∧
    if ddesc.length = 0 then s' = h5.sclose dspace (h5.dclose dset s₂)
    else err ≥ 0 ∧ s' = h5.sclose dspace (h5.dclose dset s₃)

/-- All datasets are created and written, one after the other. -/
def AllWritten (h5 : H5 σ) (gid : ℤ) : List DsetDesc → σ → Prop
  | [], _ => True
  | ddesc :: ddescs, s => ∃ s', Written h5 ddesc gid s s' ∧ AllWritten h5 gid ddescs s'

namespace H5

/-- The error of the first dataset that fails. -/
def firstDsetError (h5 : H5 σ) (gid : ℤ) : List DsetDesc → Asserting σ CapStatus
  | [] => pure .ok
  | ddesc :: ddescs => do
    let rc ← h5.createDset ddesc gid
    if rc ≠ .ok then pure rc else h5.firstDsetError gid ddescs

/-- The error of the first step of a conversion that fails. -/
def firstError (h5 : H5 σ) (creq : ConvReq) : Asserting σ CapStatus :=
  if ¬ creq.Valid then pure .einv
  else do
    let (status, data) ← h5.hdf5Init ⟨creq, creq.dsets.getD [], -1, -1⟩
    if status ≠ .ok then pure status else h5.firstDsetError data.groupId data.dsets

end H5

/-- The initialization for a request succeeds and leaves this. -/
def Inits (h5 : H5 σ) (creq : ConvReq) (s : σ) (data : CreqData) (s' : σ) : Prop :=
  h5.hdf5Init ⟨creq, creq.dsets.getD [], -1, -1⟩ s = some ((.ok, data), s')

/-- The conversion returns the error of the first step that fails, and success only if the request
has been initialized for and all its datasets have been created and written. -/
def ReturnsFirstError (h5 : H5 σ) (creq : ConvReq) (s : σ) : Prop :=
  ∃ status ddescs s', h5.hdf5Conv (some creq) s = some ((status, ddescs), s') ∧
    (∃ s₁, h5.firstError creq s = some (status, s₁)) ∧
    (status = .ok → creq.Valid ∧
      ∃ data s₁, Inits h5 creq s data s₁ ∧ AllWritten h5 data.groupId data.dsets s₁)

theorem hid_pos_iff (hid : Hid) : hid.val > 0 ↔ ¬ hid.val < 0 := by
  have hne := hid.2
  omega

/-- When a dataset is said to be all right. -/
theorem createDset_ok_iff : h5.createDset ddesc gid s = some (.ok, s') ↔
    ddesc.Ready ∧ Written h5 ddesc gid s s' := by
  unfold H5.createDset DsetDesc.Ready
  rw [check_bind_eq_some, check_bind_eq_some, and_assoc, and_assoc]
  refine and_congr_right fun hname => and_congr_right fun hbuffer => ?_
  have hfail : ∀ {s₁ : σ}, some (CapStatus.econv, s₁) = some (CapStatus.ok, s') ↔ False :=
    ⟨fun h => (by cases h), False.elim⟩
  rcases hspace : h5.screate ddesc.length s with ⟨dspace, s₁⟩
  rw [bind_run, call_run, hspace, Option.bind_some]
  dsimp only
  rcases hdset : h5.dcreate gid (ddesc.dsetname.getD []) dspace s₁ with ⟨dset, s₂⟩
  rcases hwrite : h5.dwrite dset (ddesc.buffer.getD 0 + ddesc.offset) s₂ with ⟨err, s₃⟩
  have hwritten : Written h5 ddesc gid s s' ↔ ¬ dspace.val < 0 ∧ ¬ dset.val < 0 ∧
      if ddesc.length = 0 then s' = h5.sclose dspace (h5.dclose dset s₂)
      else err ≥ 0 ∧ s' = h5.sclose dspace (h5.dclose dset s₃) := by
    simp only [Written, hspace, hdset, hwrite, hid_pos_iff]
  rw [hwritten]
  by_cases hneg : dspace.val < 0
  · rw [if_pos hneg, pure_run, hfail]
    exact iff_of_false id fun h => h.2.1 hneg
  rw [if_neg hneg, and_iff_right hneg, bind_run, call_run, hdset, Option.bind_some]
  dsimp only
  by_cases hneg' : dset.val < 0
  · rw [if_pos hneg', bind_run, act_run, Option.bind_some, pure_run, hfail]
    exact iff_of_false id fun h => h.2.1 hneg'
  rw [if_neg hneg', and_iff_right hneg']
  by_cases hzero : ddesc.length = 0
  · rw [if_pos hzero, if_pos hzero, and_iff_right fun h => absurd hzero h, bind_run, act_run,
      Option.bind_some, bind_run, act_run, Option.bind_some, pure_run]
    simp [eq_comm]
  · have hsome : ddesc.buffer ≠ none := fun h => hzero (by rwa [if_pos h] at hbuffer)
    rw [if_neg hzero, if_neg hzero, check_pos hsome, pure_bind, check_bind_eq_some, bind_run,
      call_run, hwrite, Option.bind_some, bind_run, act_run, Option.bind_some, bind_run, act_run,
      Option.bind_some, pure_run]
    dsimp only
    by_cases herr : err < 0
    · rw [if_pos herr, hfail]
      simp [hzero, herr]
    · rw [if_neg herr]
      simp [hzero, Int.not_lt.1 herr, eq_comm]

/-- No dataset fails just if all of them are created and written, and no assertion is in the way. -/
theorem firstDsetError_ok_iff : (∃ s', h5.firstDsetError gid ddescs s = some (.ok, s')) ↔
    (∀ ddesc ∈ ddescs, ddesc.Ready) ∧ AllWritten h5 gid ddescs s := by
  induction ddescs generalizing s with
  | nil => exact iff_of_true ⟨s, rfl⟩ ⟨fun _ h => absurd h List.not_mem_nil, trivial⟩
  | cons ddesc ddescs ih =>
    rw [List.forall_mem_cons, AllWritten]
    constructor
    · rintro ⟨s', h⟩
      obtain ⟨rc, s₁, hcreate, hrest⟩ := bind_eq_some.1 h
      by_cases hrc : rc ≠ .ok
      · rw [if_pos hrc] at hrest
        cases hrest
        exact absurd rfl hrc
      · obtain rfl := not_not.1 hrc
        rw [if_neg hrc] at hrest
        obtain ⟨hready, hwritten⟩ := createDset_ok_iff.1 hcreate
        obtain ⟨hall, hrest⟩ := ih.1 ⟨s', hrest⟩
        exact ⟨⟨hready, hall⟩, s₁, hwritten, hrest⟩
    · rintro ⟨⟨hready, hall⟩, s₁, hwritten, hrest⟩
      obtain ⟨s', h⟩ := ih.2 ⟨hall, hrest⟩
      refine ⟨s', bind_eq_some.2 ⟨.ok, s₁, createDset_ok_iff.2 ⟨hready, hwritten⟩, ?_⟩⟩
      rw [if_neg (not_not.2 rfl)]
      exact h

/-- The loop stops at the first dataset that fails, but does not say so. -/
theorem writeDsets_eq (h5 : H5 σ) (gid : ℤ) (ddescs : List DsetDesc) (s : σ) :
    h5.writeDsets gid ddescs s = (h5.firstDsetError gid ddescs s).map fun r => ((), r.2) := by
  induction ddescs generalizing s with
  | nil => rfl
  | cons ddesc ddescs ih =>
    rw [H5.writeDsets, H5.firstDsetError, bind_run, bind_run]
    cases h5.createDset ddesc gid s with
    | none => rfl
    | some r =>
      rw [Option.bind_some, Option.bind_some]
      split_ifs
      · rfl
      · exact ih r.2

/-- What `s_hdf5_write` returns, if it does, is not an error. -/
theorem hdf5Write_ok {status : CapStatus} (h : h5.hdf5Write data s = some (status, s')) :
    status = .ok := by
  obtain ⟨-, s₁, -, hrest⟩ := bind_eq_some.1 h
  cases hrest
  rfl

theorem hdf5Write_of_ok (h : h5.firstDsetError data.groupId data.dsets s = some (.ok, s')) :
    h5.hdf5Write data s = some (.ok, h5.fclose data.fileId (h5.gclose data.groupId s')) := by
  rw [H5.hdf5Write, bind_run, writeDsets_eq, h]
  rfl

/-! ## The conversion -/

theorem hdf5Conv_of_not_valid (valid : ¬ creq.Valid) :
    h5.hdf5Conv (some creq) s = some ((.einv, creq.dsets.getD []), s) := by
  rw [H5.hdf5Conv]
  dsimp only
  rw [if_pos valid]
  rfl

/-- A synchronous conversion, and what it returns. -/
theorem hdf5Conv_eq_some (valid : creq.Valid) (sync : creq.async = false) {status : CapStatus} :
    (∃ ddescs s', h5.hdf5Conv (some creq) s = some ((status, ddescs), s')) ↔
      ∃ data s', h5.runSync ⟨creq, creq.dsets.getD [], -1, -1⟩ s = some ((status, data), s') := by
  rw [H5.hdf5Conv]
  dsimp only
  rw [if_neg (not_not.2 valid), sync, if_neg (by decide)]
  constructor
  · rintro ⟨ddescs, s', h⟩
    obtain ⟨⟨status', data⟩, s₁, hrun, hrest⟩ := bind_eq_some.1 h
    obtain ⟨ddescs', s₂, -, hpure⟩ := bind_eq_some.1 hrest
    cases hpure
    exact ⟨data, s₁, hrun⟩
  · rintro ⟨data, s₁, hrun⟩
    obtain ⟨ddescs, s', hunmap, -⟩ := H5.returns_unmap h5 data.dsets s₁
    exact ⟨ddescs, s', bind_eq_some.2 ⟨_, s₁, hrun, bind_eq_some.2 ⟨ddescs, s', hunmap, rfl⟩⟩⟩

section Initialized

variable {rc : CapStatus} {s₁ : σ}

theorem inits_iff (init : h5.hdf5Init ⟨creq, creq.dsets.getD [], -1, -1⟩ s = some ((rc, data), s₁))
    {data' : CreqData} : Inits h5 creq s data' s' ↔ rc = .ok ∧ data' = data ∧ s' = s₁ := by
  rw [Inits, init]
  simp [eq_comm, and_assoc]

/-- The first error, once it is known how the initialization ends. -/
theorem firstError_of_init (valid : creq.Valid)
    (init : h5.hdf5Init ⟨creq, creq.dsets.getD [], -1, -1⟩ s = some ((rc, data), s₁)) :
    h5.firstError creq s =
      (if rc ≠ .ok then pure rc else h5.firstDsetError data.groupId data.dsets :
        Asserting σ CapStatus) s₁ := by
  rw [H5.firstError, if_neg (not_not.2 valid), bind_run, init]
  rfl

theorem runSync_of_init
    (init : h5.hdf5Init ⟨creq, creq.dsets.getD [], -1, -1⟩ s = some ((rc, data), s₁)) :
    h5.runSync ⟨creq, creq.dsets.getD [], -1, -1⟩ s =
      (if rc = .ok then do
        let status ← h5.hdf5Write data
        pure (status, data)
      else pure (rc, data) : Asserting σ (CapStatus × CreqData)) s₁ := by
  rw [H5.runSync, bind_run, init]
  rfl

/-- An error of the initialization is returned. -/
theorem returnsFirstError_of_init_error (valid : creq.Valid) (sync : creq.async = false)
    (init : h5.hdf5Init ⟨creq, creq.dsets.getD [], -1, -1⟩ s = some ((rc, data), s₁))
    (error : rc ≠ .ok) : ReturnsFirstError h5 creq s := by
  have hfirst := firstError_of_init valid init
  have hsync := runSync_of_init init
  rw [if_pos error] at hfirst
  rw [if_neg error] at hsync
  obtain ⟨ddescs, s', hconv⟩ := (hdf5Conv_eq_some valid sync).2 ⟨data, s₁, hsync⟩
  exact ⟨rc, ddescs, s', hconv, ⟨s₁, hfirst⟩, fun h => absurd h error⟩

/-- After the initialization success is returned, which is right just if no dataset fails. -/
theorem returnsFirstError_of_init_ok (valid : creq.Valid) (sync : creq.async = false)
    (init : h5.hdf5Init ⟨creq, creq.dsets.getD [], -1, -1⟩ s = some ((.ok, data), s₁)) :
    ReturnsFirstError h5 creq s ↔
      (∀ ddesc ∈ data.dsets, ddesc.Ready) ∧ AllWritten h5 data.groupId data.dsets s₁ := by
  have hfirst := firstError_of_init valid init
  have hsync := runSync_of_init init
  rw [if_neg (not_not.2 rfl)] at hfirst
  rw [if_pos rfl] at hsync
  constructor
  · rintro ⟨status, ddescs, s', hconv, ⟨s₂, herror⟩, -⟩
    obtain ⟨data', s₃, hrun⟩ := (hdf5Conv_eq_some valid sync).1 ⟨ddescs, s', hconv⟩
    rw [hsync] at hrun
    obtain ⟨status', s₄, hwrite, hpure⟩ := bind_eq_some.1 hrun
    obtain rfl := hdf5Write_ok hwrite
    cases hpure
    rw [hfirst] at herror
    exact firstDsetError_ok_iff.1 ⟨s₂, herror⟩
  · intro hall
    obtain ⟨s₂, herror⟩ := firstDsetError_ok_iff.2 hall
    obtain ⟨ddescs, s', hconv⟩ := (hdf5Conv_eq_some valid sync).2
      ⟨data, _, hsync.trans (bind_eq_some.2 ⟨_, _, hdf5Write_of_ok herror, rfl⟩)⟩
    exact ⟨.ok, ddescs, s', hconv, ⟨s₂, hfirst.trans herror⟩, fun _ =>
      ⟨valid, data, s₁, init, hall.2⟩⟩

end Initialized

/-- A synchronous conversion returns the error of the first step that fails just if, whenever the
initialization succeeds, all datasets are created and written and none is given as a buffer of
length zero. -/
theorem returns_first_error_iff (h5 : H5 σ) (creq : ConvReq) (s : σ) (sync : creq.async = false) :
    ReturnsFirstError h5 creq s ↔ (creq.Valid → ∀ data s₁, Inits h5 creq s data s₁ →
      (∀ ddesc ∈ creq.dsets.getD [], ddesc.buffer ≠ none → ddesc.length ≠ 0) ∧
        AllWritten h5 data.groupId data.dsets s₁) := by
  by_cases valid : creq.Valid
  swap
  · refine iff_of_true ⟨.einv, _, s, hdf5Conv_of_not_valid valid, ⟨s, ?_⟩, fun h => by cases h⟩
      fun h => absurd h valid
    rw [H5.firstError, if_pos valid]
    rfl
  obtain ⟨⟨rc, data⟩, s₁, init, mapped⟩ :=
    H5.returns_hdf5Init h5 ⟨creq, creq.dsets.getD [], -1, -1⟩ valid.2 s
  by_cases hrc : rc = .ok
  · subst hrc
    -- the descriptions are ready if no buffer is of length zero
    rw [returnsFirstError_of_init_ok valid sync init, ready_all_iff (mapped rfl) valid.2]
    constructor
    · intro hall _ data' s' inits
      obtain ⟨-, rfl, rfl⟩ := (inits_iff init).1 inits
      exact hall
    · exact fun h => h valid data s₁ init
  · refine iff_of_true (returnsFirstError_of_init_error valid sync init hrc) ?_
    exact fun _ data' s' inits => absurd ((inits_iff init).1 inits).1 hrc

/-- A library that gives this for a new dataset, and a system with one file of five bytes. -/
def h5Of (dset : Hid) : H5 Unit :=
  let one : Hid := ⟨1, by decide⟩
  { fopen := fun _ s => (one, s)
    fcreate := fun _ s => (one, s)
    fclose := fun _ s => s
    lexists := fun _ _ s => (0, s)
    lcopy := fun _ _ _ _ s => (0, s)
    ldelete := fun _ _ s => (0, s)
    gopen := fun _ _ s => (one, s)
    gcreate := fun _ _ s => (one, s)
    gclose := fun _ s => s
    screate := fun _ s => (one, s)
    sclose := fun _ s => s
    dcreate := fun _ _ _ s => (dset, s)
    dwrite := fun _ _ s => (0, s)
    dclose := fun _ s => s
    access := fun _ s => (false, s)
    unlink := fun _ s => (true, s)
    openFd := fun _ s => (some 3, s)
    lseekEnd := fun _ s => (some 5, s)
    closeFd := fun _ s => s
    mmap := fun _ _ s => (some 4096, s)
    munmap := fun _ _ s => s
    time := fun s => (some 0, s)
    forkAndRun := fun _ s => (0, s) }

/-- A request for one dataset, the whole of the file. -/
def oneDset : ConvReq where
  filename := some "a.hdf5".toList
  group := some "b".toList
  dsets := some [⟨some "fidx".toList, 0, -1, some "a-b.fidx".toList, none⟩]
  ovrwtmode := 0
  async := false

theorem init_oneDset (dset : Hid) : Inits (h5Of dset) oneDset ()
    ⟨oneDset, [⟨some "fidx".toList, 0, 5, some "a-b.fidx".toList, some 4096⟩], 1, 1⟩ () := rfl

theorem returns_first_error_iff_one : ReturnsFirstError (h5Of ⟨1, by decide⟩) oneDset () := by
  refine (returns_first_error_iff _ oneDset () rfl).2 fun _ data s₁ inits => ⟨by decide, ?_⟩
  have h := (init_oneDset ⟨1, by decide⟩).symm.trans inits
  obtain rfl := (Prod.mk.inj (Prod.mk.inj (Option.some.inj h)).1).2
  exact ⟨(), ⟨Int.one_pos, Int.one_pos, le_refl (0 : ℤ), rfl⟩, trivial⟩

/-- That a dataset can not be created is not noticed. -/
theorem not_returns_first_error : ¬ ∀ (h5 : H5 Unit) (creq : ConvReq), creq.async = false →
    ReturnsFirstError h5 creq () := by
  intro h
  obtain ⟨status, ddescs, s', hconv, ⟨s₁, herror⟩, -⟩ := h (h5Of ⟨-1, by decide⟩) oneDset rfl
  have hok : (h5Of ⟨-1, by decide⟩).hdf5Conv (some oneDset) () = some ((.ok, _), ()) := rfl
  have hfail : (h5Of ⟨-1, by decide⟩).firstError oneDset () = some (.econv, ()) := rfl
  cases hok.symm.trans hconv
  cases hfail.symm.trans herror

end Tesd
