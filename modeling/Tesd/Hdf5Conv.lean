import Tesd.CapRequest
import Tesd.Lib.Asserting

/-!
# Conversion to hdf5

`hdf5conv.c`: the groups in the hdf5 file, the data files that are mapped and the datasets that are
made of them.  The calls to the hdf5 library and to the system are parameters, with a state of their
own.  A failed assertion ends the process.
-/

namespace Tesd

open Posix

/-- `hdf5_dset_desc_t`. -/
structure DsetDesc where
  dsetname : Option CStr
  offset : ℤ
  length : ℤ
  filename : Option CStr
  /-- the address of the data -/
  buffer : Option ℕ
  deriving DecidableEq

/-- `hdf5_conv_req_t`; `num_dsets` is the length of the array. -/
structure ConvReq where
  filename : Option CStr
  group : Option CStr
  dsets : Option (List DsetDesc)
  ovrwtmode : UInt8
  async : Bool

/-- `s_creq_data_t`, with the descriptions of the datasets as they are now. -/
structure CreqData where
  creq : ConvReq
  dsets : List DsetDesc
  groupId : ℤ
  fileId : ℤ

/-- An identifier that the hdf5 library gives: it is positive, or negative if there was an error. -/
abbrev Hid := { hid : ℤ // hid ≠ 0 }

/-- The calls to the hdf5 library and to the system, and `fork_and_run`.  Of the system calls,
`access` is true if the file exists, `unlink` if it succeeds, and the others give nothing if they
fail. -/
structure H5 (σ : Type) where
  fopen (filename : CStr) : σ → Hid × σ
  fcreate (filename : CStr) : σ → Hid × σ
  fclose (fid : ℤ) : σ → σ
  lexists (lid : ℤ) (group : CStr) : σ → ℤ × σ
  lcopy (lid : ℤ) (group : CStr) (dst : ℤ) (dstgroup : CStr) : σ → ℤ × σ
  ldelete (lid : ℤ) (group : CStr) : σ → ℤ × σ
  gopen (lid : ℤ) (group : CStr) : σ → Hid × σ
  gcreate (lid : ℤ) (group : CStr) : σ → Hid × σ
  gclose (gid : ℤ) : σ → σ
  screate (length : ℤ) : σ → Hid × σ
  sclose (dspace : ℤ) : σ → σ
  dcreate (gid : ℤ) (dsetname : CStr) (dspace : ℤ) : σ → Hid × σ
  dwrite (dset : ℤ) (data : ℤ) : σ → ℤ × σ
  dclose (dset : ℤ) : σ → σ
  access (filename : CStr) : σ → Bool × σ
  unlink (filename : CStr) : σ → Bool × σ
  openFd (filename : CStr) : σ → Option ℕ × σ
  lseekEnd (fd : ℕ) : σ → Option ℕ × σ
  closeFd (fd : ℕ) : σ → σ
  mmap (length : ℤ) (fd : ℕ) : σ → Option ℕ × σ
  munmap (addr : ℕ) (length : ℤ) : σ → σ
  time : σ → Option ℕ × σ
  forkAndRun (data : CreqData) : σ → ℤ × σ

variable {σ : Type}

open Asserting

/-! ## Validity -/

/-- What `hdf5_conv` asks of one dataset. -/
def DsetDesc.Valid (ddesc : DsetDesc) : Prop :=
  ¬(ddesc.dsetname = none ∨ ddesc.dsetname.getD [] = [] ∨
    (ddesc.filename ≠ none ∧ ddesc.buffer ≠ none) ∨
    (ddesc.filename = none ∧ ddesc.buffer = none) ∨
    (ddesc.buffer ≠ none ∧ (ddesc.offset < 0 ∨ ddesc.length < 0)))

/-- What `hdf5_conv` asks of a request. -/
def ConvReq.Valid (creq : ConvReq) : Prop :=
  ¬(creq.filename = none ∨ creq.filename.getD [] = [] ∨ creq.group = none ∨
    creq.group.getD [] = [] ∨ creq.dsets = none ∨ creq.ovrwtmode.toNat > 2 ∨
    creq.dsets.getD [] = []) ∧ ∀ ddesc ∈ creq.dsets.getD [], ddesc.Valid

instance (ddesc : DsetDesc) : Decidable ddesc.Valid := by
  unfold DsetDesc.Valid
  infer_instance

instance (creq : ConvReq) : Decidable creq.Valid := by
  unfold ConvReq.Valid
  infer_instance

def ROOT_GROUP : CStr := "capture".toList
def OVRWT_GROUP : CStr := "overwritten".toList

namespace H5

/-! ## Groups -/

/-- `s_get_grp`. -/
def getGrp (h5 : H5 σ) (lid : ℤ) (group : CStr) (create : Bool) : Asserting σ ℤ := do
  check (lid > 0)
  let gstat ← call (h5.lexists lid group)
  if gstat < 0 then pure (-1)
  else if gstat = 0 ∧ create = false then pure 0
  else
    let gid ← (if gstat > 0 then call (h5.gopen lid group) else call (h5.gcreate lid group))
    if gid.val < 0 then pure (-1) else pure gid.val

/-- The end of `s_crt_grp`. -/
def newGrp (h5 : H5 σ) (lid : ℤ) (group : CStr) : Asserting σ ℤ := do
  let gid ← call (h5.gcreate lid group)
  if gid.val < 0 then pure (-1) else pure gid.val

/-- The check that a group is not there, which makes an error of it if it is. -/
def checkNoGrp (h5 : H5 σ) (lid : ℤ) (group : CStr) (err : ℤ) : Asserting σ ℤ := do
  let gid ← h5.getGrp lid group false
  if gid > 0 then do
    act (h5.gclose gid)
    pure (-1)
  else pure err

/-- The part of `s_crt_grp` that renames a group, with the checks that are made without
`DEBUG_LEVEL` too. -/
def renameGrp (h5 : H5 σ) (lid : ℤ) (group : CStr) (bkpLid : ℤ) (bkpgroup : CStr) : Asserting σ ℤ := do
  check (bkpgroup ≠ [])
  let err ← h5.checkNoGrp bkpLid bkpgroup 0
  let err ← (if err ≥ 0 then call (h5.lcopy lid group bkpLid bkpgroup) else pure err)
  let err ← (if err ≥ 0 then call (h5.ldelete lid group) else pure err)
  h5.checkNoGrp lid group err

/-- `s_crt_grp`. -/
def crtGrp (h5 : H5 σ) (lid : ℤ) (group : CStr) (bkpLid : ℤ) (bkpgroup : CStr) : Asserting σ ℤ := do
  check (lid > 0)
  let gid ← h5.getGrp lid group false
  if gid < 0 then pure (-1)
  else if gid > 0 then do
    act (h5.gclose gid)
    if bkpLid ≤ 0 then pure 0
    else
      let err ← h5.renameGrp lid group bkpLid bkpgroup
      if err < 0 then pure (-1) else h5.newGrp lid group
  else h5.newGrp lid group

/-! ## Datasets -/

/-- The part of `s_map_file` after the size of the file is known. -/
def mapFd (h5 : H5 σ) (ddesc : DsetDesc) (fd fsize : ℕ) : Asserting σ (CapStatus × DsetDesc) := do
  let offset := if ddesc.offset < 0 then ddesc.offset + fsize else ddesc.offset
  if fsize = 0 ∨ offset ≥ fsize ∨ offset < 0 then do
    act (h5.closeFd fd)
    pure (.ok, { ddesc with offset := offset, length := 0 })
  else
    check (offset ≥ 0)
    check (fsize > 0)
    let maxlength := fsize - offset
    check (maxlength > 0)
    let length :=
      if ddesc.length < 0 ∨ ddesc.length > maxlength then maxlength else ddesc.length
    check (length > 0)
    let data ← call (h5.mmap (offset + length) fd)
    act (h5.closeFd fd)
    match data with
    | none => pure (.efail, { ddesc with offset := offset, length := length })
    | some addr => pure (.ok, { ddesc with offset := offset, length := length, buffer := some addr })

/-- `s_map_file`. -/
def mapFile (h5 : H5 σ) (ddesc : DsetDesc) : Asserting σ (CapStatus × DsetDesc) := do
  check (ddesc.filename ≠ none)
  check (ddesc.buffer = none)
  if ddesc.length = 0 then pure (.ok, ddesc)
  else
    match ← call (h5.openFd (ddesc.filename.getD [])) with
    | none => pure (.efail, ddesc)
    | some fd =>
      match ← call (h5.lseekEnd fd) with
      | none => do
        act (h5.closeFd fd)
        pure (.efail, ddesc)
      | some fsize => h5.mapFd ddesc fd fsize

/-- The loop of `s_hdf5_init`. -/
def mapFiles (h5 : H5 σ) : List DsetDesc → Asserting σ (CapStatus × List DsetDesc)
  | [] => pure (.ok, [])
  | ddesc :: ddescs => do
    let (rc, ddesc) ← (if ddesc.filename = none then pure (.ok, ddesc) else h5.mapFile ddesc)
    if rc ≠ .ok then pure (rc, ddesc :: ddescs)
    else
      let (rc, ddescs) ← h5.mapFiles ddescs
      pure (rc, ddesc :: ddescs)

/-- `s_create_dset`. -/
def createDset (h5 : H5 σ) (ddesc : DsetDesc) (gid : ℤ) : Asserting σ CapStatus := do
  check (ddesc.dsetname ≠ none)
  check (if ddesc.buffer = none then ddesc.length = 0 else ddesc.length > 0)
  let dspace ← call (h5.screate ddesc.length)
  if dspace.val < 0 then pure .econv
  else
    let dset ← call (h5.dcreate gid (ddesc.dsetname.getD []) dspace)
    if dset.val < 0 then do
      act (h5.sclose dspace)
      pure .econv
    else if ddesc.length = 0 then do
      act (h5.dclose dset)
      act (h5.sclose dspace)
      pure .ok
    else
      check (ddesc.buffer ≠ none)
      check (ddesc.offset ≥ 0)
      let err ← call (h5.dwrite dset (ddesc.buffer.getD 0 + ddesc.offset))
      act (h5.dclose dset)
      act (h5.sclose dspace)
      pure (if err < 0 then .econv else .ok)

/-! ## Requests -/

/-- The part of `s_hdf5_init` that opens or creates the file. -/
def openFile (h5 : H5 σ) (creq : ConvReq) : Asserting σ (Option ℤ) := do
  let filename := creq.filename.getD []
  let ovrwt := creq.ovrwtmode.toNat = TES_H5_OVRWT_FILE
  let fok ← call (h5.access filename)
  let removed ← (if fok = true ∧ ovrwt then call (h5.unlink filename) else pure true)
  if removed = false then pure none
  else
    let fid ←
      (if fok = true ∧ ¬ovrwt then call (h5.fopen filename) else call (h5.fcreate filename))
    if fid.val < 0 then pure none else pure (some fid.val)

/-- The part of `s_hdf5_init` about the group for what is overwritten: the group, and the name in it,
if nothing fails. -/
def ovrwtGrp (h5 : H5 σ) (creq : ConvReq) (fid : ℤ) : Asserting σ (ℤ × Option CStr) := do
  if creq.ovrwtmode.toNat = TES_H5_OVRWT_RELINK then
    let ovrwtGid ← h5.getGrp fid OVRWT_GROUP true
    if ovrwtGid < 0 then pure (ovrwtGid, none)
    else
      check (ovrwtGid > 0)
      match ← call h5.time with
      | none => pure (ovrwtGid, none)
      | some tnow =>
        let bkpgroup := creq.group.getD [] ++ '_' :: Nat.toDigits 10 tnow
        if bkpgroup.length ≥ PATH_MAX then pure (ovrwtGid, none)
        else pure (ovrwtGid, some bkpgroup)
  else pure (-1, some [])

/-- `s_hdf5_init`. -/
def hdf5Init (h5 : H5 σ) (data : CreqData) : Asserting σ (CapStatus × CreqData) := do
  match ← h5.openFile data.creq with
  | none => pure (.efail, data)
  | some fid =>
    let rootGid ← h5.getGrp fid ROOT_GROUP true
    if rootGid < 0 then do
      act (h5.fclose fid)
      pure (.efail, data)
    else
      check (rootGid > 0)
      let (ovrwtGid, bkpgroup) ← h5.ovrwtGrp data.creq fid
      match bkpgroup with
      | none => do
        act (h5.gclose rootGid)
        act (if ovrwtGid > 0 then h5.gclose ovrwtGid else id)
        act (h5.fclose fid)
        pure (.efail, data)
      | some bkpgroup =>
        let clientGid ← h5.crtGrp rootGid (data.creq.group.getD []) ovrwtGid bkpgroup
        act (h5.gclose rootGid)
        act (if ovrwtGid > 0 then h5.gclose ovrwtGid else id)
        if clientGid ≤ 0 then do
          act (h5.fclose fid)
          pure (if clientGid = 0 then .eabort else .efail, data)
        else
          let (rc, dsets) ← h5.mapFiles data.dsets
          if rc ≠ .ok then do
            act (h5.gclose clientGid)
            act (h5.fclose fid)
            pure (rc, { data with dsets := dsets })
          else pure (.ok, { data with dsets := dsets, groupId := clientGid, fileId := fid })

/-- The loop of `s_hdf5_write`. -/
def writeDsets (h5 : H5 σ) (gid : ℤ) : List DsetDesc → Asserting σ Unit
  | [] => pure ()
  | ddesc :: ddescs => do
    -- this status is a variable of the loop's body
    let rc ← h5.createDset ddesc gid
    if rc ≠ .ok then pure () else h5.writeDsets gid ddescs

/-- `s_hdf5_write`. -/
def hdf5Write (h5 : H5 σ) (data : CreqData) : Asserting σ CapStatus := do
  let rc := CapStatus.ok
  h5.writeDsets data.groupId data.dsets
  act (h5.gclose data.groupId)
  act (h5.fclose data.fileId)
  pure rc

/-- The body of the loop at the end of `hdf5_conv`. -/
def unmapFile (h5 : H5 σ) (ddesc : DsetDesc) : Asserting σ DsetDesc :=
  match ddesc.filename, ddesc.buffer with
  | some _, some addr => do
    act (h5.munmap addr (ddesc.offset + ddesc.length))
    pure { ddesc with buffer := none }
  | _, _ => pure ddesc

/-- The loop at the end of `hdf5_conv`. -/
def unmap (h5 : H5 σ) : List DsetDesc → Asserting σ (List DsetDesc)
  | [] => pure []
  | ddesc :: ddescs => do
    let ddesc ← h5.unmapFile ddesc
    let ddescs ← h5.unmap ddescs
    pure (ddesc :: ddescs)

/-- What `hdf5_conv` does in asynchronous mode; what the other process does with the descriptions is
not seen here. -/
def runAsync (h5 : H5 σ) (data : CreqData) : Asserting σ (CapStatus × CreqData) := do
  let rc ← call (h5.forkAndRun data)
  pure (if rc = -1 then .efail else .ok, data)

/-- What `hdf5_conv` does in synchronous mode. -/
def runSync (h5 : H5 σ) (data : CreqData) : Asserting σ (CapStatus × CreqData) := do
  let (status, data) ← h5.hdf5Init data
  if status = .ok then do
    let status ← h5.hdf5Write data
    pure (status, data)
  else pure (status, data)

/-- `hdf5_conv`: the status, and the descriptions of the datasets after the call. -/
def hdf5Conv (h5 : H5 σ) (creq : Option ConvReq) : Asserting σ (CapStatus × List DsetDesc) :=
  match creq with
  | none => pure (.einv, [])
  | some creq =>
    let dsets := creq.dsets.getD []
    if ¬ creq.Valid then pure (.einv, dsets)
    else do
      let data : CreqData := ⟨creq, dsets, -1, -1⟩
      let (status, data) ← (if creq.async = true then h5.runAsync data else h5.runSync data)
      let dsets ← h5.unmap data.dsets
      pure (status, dsets)

end H5

end Tesd
