import Mathlib.Data.List.Forall2
import Tesd.Hdf5World
import Tesd.Hdf5Steps

/-!
# What the datasets get

`s_map_file` maps a data file from its beginning, and `s_create_dset` writes from the offset on.  A
dataset gets the part of the file, or of the buffer, that `hdf5conv.h` says, and the assertions hold,
but for a buffer of length zero, which the check of the request lets pass.
-/

namespace Tesd

open Asserting

variable {σ : Type} {h5 : H5 σ} {ddesc ddesc' : DsetDesc} {ddescs ddescs' : List DsetDesc}
  {creq : ConvReq} {data : CreqData} {gid : ℤ} {s s' s₁ : σ}

/-! ## What the documentation says -/

/-- The part of a file that a dataset gets. -/
def documented (bytes : List UInt8) (offset length : ℤ) : List UInt8 :=
  let start := if offset < 0 then offset + bytes.length else offset
  if length = 0 ∨ start < 0 ∨ start ≥ bytes.length then []
  else if length < 0 then bytes.drop start.toNat
  else (bytes.drop start.toNat).take length.toNat

/-- The bytes in memory from this address on. -/
def memBytes (mem : ℕ → UInt8) (addr n : ℕ) : List UInt8 :=
  (List.range n).map fun i => mem (addr + i)

/-- What a dataset gets, from its file or from its buffer. -/
def DsetDesc.slice (bytes : CStr → List UInt8) (mem : ℕ → UInt8) (ddesc : DsetDesc) : List UInt8 :=
  match ddesc.filename, ddesc.buffer with
  | some filename, _ => documented (bytes filename) ddesc.offset ddesc.length
  | none, some addr => memBytes mem (addr + ddesc.offset.toNat) ddesc.length.toNat
  | none, none => []

/-! ## What is asked of the library and of the system -/

/-- What is seen of the library and of the system: the memory and which of it is in use, the files
that are open, the lengths of the dataspaces, the datasets that are open, each with the identifier of
its group and its length, and the contents of the datasets in a group. -/
structure DataView where
  mem : ℕ → UInt8
  used : ℕ → Prop
  fds : ℕ → Option CStr
  spaces : ℤ → Option ℤ
  dsets : ℤ → Option (ℤ × CStr × ℤ)
  data : ℤ → CStr → Option (List UInt8)

/-- The memory in use stays in use and is not written to. -/
def KeepsMem (v v' : DataView) : Prop := ∀ a, v.used a → v'.used a ∧ v'.mem a = v.mem a

/-- What a conversion relies on: the data files do not change and a mapping of one holds its bytes,
away from the memory in use; a new dataset was not there before and has the length of its dataspace;
a write takes that many bytes from memory; and nothing is changed in the other datasets of the
group. -/
structure H5.DataLaws (h5 : H5 σ) (bytes : CStr → List UInt8) (view : σ → DataView) : Prop where
  keepsMem : h5.Steps fun s s' => KeepsMem (view s) (view s')
  openFd : ∀ {f s fd s'}, h5.openFd f s = (some fd, s') → (view s').fds fd = some f
  lseekEnd : ∀ {fd f n s s'}, (view s).fds fd = some f → h5.lseekEnd fd s = (some n, s') →
    n = (bytes f).length ∧ (view s').fds fd = some f
  mmap : ∀ {fd f length addr s s'}, (view s).fds fd = some f →
    h5.mmap length fd s = (some addr, s') → length ≤ (bytes f).length →
    ∀ i : ℕ, i < length → (view s').used (addr + i) ∧ (view s').mem (addr + i) = (bytes f).getD i 0
  screate : ∀ {n dspace s s'}, h5.screate n s = (dspace, s') →
    (dspace.val > 0 → (view s').spaces dspace = some n) ∧ (view s').data = (view s).data
  dcreate : ∀ {gid name dspace dset s s'}, h5.dcreate gid name dspace s = (dset, s') →
    (∀ m, (m ≠ name ∨ dset.val < 0) → (view s').data gid m = (view s).data gid m) ∧
    (dset.val > 0 → (view s).data gid name = none ∧ ∀ n, (view s).spaces dspace = some n →
      (view s').dsets dset = some (gid, name, n) ∧
        ∃ b, (view s').data gid name = some b ∧ b.length = n.toNat)
  dwrite : ∀ {gid name dset addr err n s s'}, (view s).dsets dset = some (gid, name, n) →
    h5.dwrite dset addr s = (err, s') → (∀ m ≠ name, (view s').data gid m = (view s).data gid m) ∧
    (err ≥ 0 → (view s').data gid name = some (memBytes (view s).mem addr.toNat n.toNat))
  sclose : ∀ dspace s, (view (h5.sclose dspace s)).data = (view s).data
  dclose : ∀ dset s, (view (h5.dclose dset s)).data = (view s).data

/-! ## Memory -/

theorem KeepsMem.refl (v : DataView) : KeepsMem v v := fun _ h => ⟨h, rfl⟩

theorem KeepsMem.trans {v₁ v₂ v₃ : DataView} (h : KeepsMem v₁ v₂) (h' : KeepsMem v₂ v₃) :
    KeepsMem v₁ v₃ := by
  intro a ha
  obtain ⟨hused, hmem⟩ := h a ha
  obtain ⟨hused', hmem'⟩ := h' a hused
  exact ⟨hused', hmem'.trans hmem⟩

theorem memBytes_congr {mem mem' : ℕ → UInt8} {addr n : ℕ}
    (h : ∀ i < n, mem' (addr + i) = mem (addr + i)) : memBytes mem' addr n = memBytes mem addr n :=
  List.map_congr_left fun i hi => h i (List.mem_range.1 hi)

/-- A part of a list that is in memory. -/
theorem memBytes_eq_take {mem : ℕ → UInt8} {bytes : List UInt8} {addr start n : ℕ}
    (hmem : ∀ i < n, mem (addr + start + i) = bytes.getD (start + i) 0)
    (hn : start + n ≤ bytes.length) :
    memBytes mem (addr + start) n = (bytes.drop start).take n := by
  apply List.ext_getElem
  · simp only [memBytes, List.length_map, List.length_range, List.length_take, List.length_drop]
    omega
  · intro i hi hi'
    simp only [memBytes, List.length_map, List.length_range] at hi
    simp only [memBytes, List.getElem_map, List.getElem_range, List.getElem_take,
      List.getElem_drop]
    rw [hmem i hi, List.getD_eq_getElem?_getD, List.getElem?_eq_getElem (by omega), Option.getD_some]

/-- Where the data of a dataset are read from. -/
def DsetDesc.addr (ddesc : DsetDesc) : ℕ := (ddesc.buffer.getD 0 + ddesc.offset).toNat

/-- The data of a dataset are in memory that is in use. -/
def DsetDesc.InUse (ddesc : DsetDesc) (v : DataView) : Prop :=
  ∀ i < ddesc.length.toNat, v.used (ddesc.addr + i)

theorem DsetDesc.InUse.mono {v v' : DataView} (h : ddesc.InUse v) (keeps : KeepsMem v v') :
    ddesc.InUse v' :=
  fun i hi => (keeps _ (h i hi)).1

theorem memBytes_of_keepsMem {v v' : DataView} (h : ddesc.InUse v) (keeps : KeepsMem v v') :
    memBytes v'.mem ddesc.addr ddesc.length.toNat = memBytes v.mem ddesc.addr ddesc.length.toNat :=
  memBytes_congr fun i hi => (keeps _ (h i hi)).2

/-- What the one dataset is to get is in memory where the other description says. -/
structure Loaded (bytes : CStr → List UInt8) (mem : ℕ → UInt8) (v : DataView)
    (ddesc ddesc' : DsetDesc) : Prop where
  name : ddesc'.dsetname = ddesc.dsetname
  contents : memBytes v.mem ddesc'.addr ddesc'.length.toNat = ddesc.slice bytes mem
  inUse : ddesc'.InUse v

variable {bytes : CStr → List UInt8} {mem : ℕ → UInt8} {view : σ → DataView}

theorem Loaded.mono {v v' : DataView} (h : Loaded bytes mem v ddesc ddesc')
    (keeps : KeepsMem v v') : Loaded bytes mem v' ddesc ddesc' :=
  ⟨h.name, (memBytes_of_keepsMem h.inUse keeps).trans h.contents, h.inUse.mono keeps⟩

theorem loaded_empty {v : DataView} (hname : ddesc'.dsetname = ddesc.dsetname)
    (hlength : ddesc'.length = 0) (hslice : ddesc.slice bytes mem = []) :
    Loaded bytes mem v ddesc ddesc' := by
  refine ⟨hname, ?_, ?_⟩
  · rw [hlength, hslice]
    rfl
  · intro i hi
    rw [hlength] at hi
    cases hi

/-- A buffer is as it is given. -/
theorem loaded_buffer {v : DataView} (valid : ddesc.Valid) (file : ddesc.filename = none)
    (inUse : ddesc.InUse v) : Loaded bytes v.mem v ddesc ddesc := by
  unfold DsetDesc.Valid at valid
  simp only [not_or, not_and, not_not, Int.not_lt] at valid
  obtain ⟨-, -, -, hone, hbuffer⟩ := valid
  refine ⟨rfl, ?_, inUse⟩
  obtain ⟨addr, haddr⟩ := Option.ne_none_iff_exists'.1 (hone file)
  obtain ⟨hoffset, -⟩ := hbuffer (hone file)
  have hsum : ((addr : ℤ) + ddesc.offset).toNat = addr + ddesc.offset.toNat := by omega
  simp only [DsetDesc.slice, file, haddr, DsetDesc.addr, Option.getD_some, hsum]

/-! ## Mapping -/

namespace H5.DataLaws

variable {filename : CStr} {fd : ℕ}

/-- The part of a file that is mapped and not cut off is what the dataset is to get. -/
theorem loaded_mapFd (laws : h5.DataLaws bytes view) (file : ddesc.filename = some filename)
    (nonzero : ddesc.length ≠ 0) (hfd : (view s).fds fd = some filename)
    (h : h5.mapFd ddesc fd (bytes filename).length s = some ((.ok, ddesc'), s')) :
    Loaded bytes mem (view s') ddesc ddesc' := by
  obtain ⟨offset, hoffset⟩ : ∃ offset, (if ddesc.offset < 0
    then ddesc.offset + (bytes filename).length else ddesc.offset) = offset := ⟨_, rfl⟩
  have hslice : ddesc.slice bytes mem = if offset < 0 ∨ offset ≥ (bytes filename).length then []
      else if ddesc.length < 0 then (bytes filename).drop offset.toNat
      else ((bytes filename).drop offset.toNat).take ddesc.length.toNat := by
    simp only [DsetDesc.slice, file, documented, hoffset, nonzero, false_or]
  unfold H5.mapFd at h
  dsimp only at h
  rw [hoffset] at h
  by_cases hout : (bytes filename).length = 0 ∨ offset ≥ (bytes filename).length ∨ offset < 0
  · rw [if_pos hout] at h
    cases h
    refine loaded_empty rfl rfl ?_
    rw [hslice, if_pos (by omega)]
  · rw [if_neg hout] at h
    simp only [check_bind_eq_some] at h
    obtain ⟨hpos, hsize, hmax, hlong, h⟩ := h
    obtain ⟨length, hlength⟩ : ∃ length, (if ddesc.length < 0 ∨
      ddesc.length > (bytes filename).length - offset then (bytes filename).length - offset
      else ddesc.length) = length := ⟨_, rfl⟩
    rw [hlength] at h hlong
    have hfits : offset + length ≤ (bytes filename).length := by
      rw [← hlength]
      split_ifs with hcut <;> omega
    obtain ⟨mapped, s₁, hmmap, h⟩ := bind_eq_some.1 h
    cases mapped with
    | none => cases h
    | some addr =>
      have hbytes := laws.mmap hfd (Option.some.inj hmmap) hfits
      have hkeeps := laws.keepsMem.closeFd fd s₁
      cases h
      have hat : (((addr : ℕ) : ℤ) + offset).toNat = addr + offset.toNat := by omega
      refine ⟨rfl, ?_, ?_⟩
      · simp only [DsetDesc.addr, Option.getD_some, hat]
        rw [@memBytes_eq_take _ (bytes filename), hslice, if_neg (by omega)]
        · -- what is cut off at the end of the file is not there to be taken
          by_cases hall : ddesc.length < 0 ∨ ddesc.length > (bytes filename).length - offset
          · rw [if_pos hall] at hlength
            rw [List.take_of_length_le (by rw [List.length_drop]; omega)]
            split_ifs with hneg
            · rfl
            · rw [List.take_of_length_le (by rw [List.length_drop]; omega)]
          · rw [if_neg hall] at hlength
            rw [if_neg (by omega), hlength]
        · intro i hi
          obtain ⟨hused, hmem⟩ := hbytes (offset.toNat + i) (by omega)
          rw [Nat.add_assoc, (hkeeps _ hused).2, hmem]
        · omega
      · intro i hi
        dsimp only at hi
        obtain ⟨hused, -⟩ := hbytes (offset.toNat + i) (by omega)
        simp only [DsetDesc.addr, Option.getD_some, hat]
        rw [Nat.add_assoc]
        exact (hkeeps _ hused).1

theorem loaded_mapFile (laws : h5.DataLaws bytes view) (file : ddesc.filename = some filename)
    (h : h5.mapFile ddesc s = some ((.ok, ddesc'), s')) :
    Loaded bytes mem (view s') ddesc ddesc' := by
  unfold H5.mapFile at h
  rw [check_bind_eq_some, check_bind_eq_some] at h
  obtain ⟨-, -, h⟩ := h
  by_cases hzero : ddesc.length = 0
  · rw [if_pos hzero] at h
    cases h
    refine loaded_empty rfl hzero ?_
    simp only [DsetDesc.slice, file, documented, hzero, true_or, if_true]
  · rw [if_neg hzero] at h
    obtain ⟨opened, s₁, hopen, h⟩ := bind_eq_some.1 h
    cases opened with
    | none => cases h
    | some fd =>
      obtain ⟨size, s₂, hseek, h⟩ := bind_eq_some.1 h
      cases size with
      | none => cases h
      | some fsize =>
        have hfd := laws.openFd (Option.some.inj hopen)
        rw [file, Option.getD_some] at hfd
        obtain ⟨rfl, hfd⟩ := laws.lseekEnd hfd (Option.some.inj hseek)
        exact laws.loaded_mapFd file hzero hfd h

theorem loaded_mapFiles (laws : h5.DataLaws bytes view)
    (buffers : ∀ ddesc ∈ ddescs, ddesc.filename = none → Loaded bytes mem (view s) ddesc ddesc)
    (h : h5.mapFiles ddescs s = some ((.ok, ddescs'), s')) :
    List.Forall₂ (Loaded bytes mem (view s')) ddescs ddescs' := by
  induction ddescs generalizing ddescs' s with
  | nil =>
    cases h
    exact .nil
  | cons ddesc ddescs ih =>
    rw [List.forall_mem_cons] at buffers
    obtain ⟨⟨rc, first⟩, s₁, hfirst, h⟩ := bind_eq_some.1 h
    by_cases hrc : rc ≠ .ok
    · dsimp only at h
      rw [if_pos hrc] at h
      cases h
      exact absurd rfl hrc
    · dsimp only at h
      rw [if_neg hrc] at h
      obtain rfl := not_not.1 hrc
      obtain ⟨⟨rc', rest⟩, s₂, hrest, h⟩ := bind_eq_some.1 h
      cases h
      have hkeeps : KeepsMem (view s) (view s₁) := by
        split_ifs at hfirst
        · cases hfirst
          exact KeepsMem.refl _
        · exact laws.keepsMem.within_mapFile ddesc s _ s₁ hfirst
      have hloaded : Loaded bytes mem (view s₁) ddesc first := by
        cases hfile : ddesc.filename with
        | none =>
          rw [if_pos hfile] at hfirst
          cases hfirst
          exact buffers.1 hfile
        | some filename =>
          rw [if_neg (by simp [hfile])] at hfirst
          exact laws.loaded_mapFile hfile hfirst
      have hlater := laws.keepsMem.within_mapFiles ddescs s₁ _ _ hrest
      refine .cons (hloaded.mono hlater) (ih ?_ hrest)
      exact fun d hd hfile => (buffers.2 d hd hfile).mono hkeeps

end H5.DataLaws

/-! ## Writing -/

/-- What a dataset of this description is called. -/
def DsetDesc.named (ddesc : DsetDesc) : CStr := ddesc.dsetname.getD []

namespace H5.DataLaws

variable {rc : CapStatus}

/-- A dataset that is said to be created and written has the bytes in memory, and no other dataset in
the group has changed. -/
theorem data_createDset (laws : h5.DataLaws bytes view) (inUse : ddesc.InUse (view s))
    (h : h5.createDset ddesc gid s = some (rc, s')) :
    (∀ m b, (view s).data gid m = some b → (view s').data gid m = some b) ∧
      (rc = .ok → (view s').data gid ddesc.named =
        some (memBytes (view s).mem ddesc.addr ddesc.length.toNat)) := by
  unfold H5.createDset at h
  rw [check_bind_eq_some, check_bind_eq_some] at h
  obtain ⟨-, hbuffer, h⟩ := h
  obtain ⟨dspace, s₁, hspace, h⟩ := bind_eq_some.1 h
  obtain ⟨hextent, hdata₁⟩ := laws.screate (Option.some.inj hspace)
  have hkeeps₁ := laws.keepsMem.screate ddesc.length s
  rw [Option.some.inj hspace] at hkeeps₁
  by_cases hneg : dspace.val < 0
  · rw [if_pos hneg] at h
    cases h
    rw [hdata₁]
    exact ⟨fun _ _ hm => hm, fun hok => by cases hok⟩
  rw [if_neg hneg] at h
  obtain ⟨dset, s₂, hdset, h⟩ := bind_eq_some.1 h
  obtain ⟨hothers, hnew⟩ := laws.dcreate (Option.some.inj hdset)
  have hkeeps₂ := laws.keepsMem.dcreate gid ddesc.named dspace s₁
  rw [DsetDesc.named, Option.some.inj hdset] at hkeeps₂
  by_cases hneg' : dset.val < 0
  · rw [if_pos hneg'] at h
    cases h
    rw [laws.sclose]
    refine ⟨fun m b hm => ?_, fun hok => by cases hok⟩
    rw [hothers m (.inr hneg'), hdata₁]
    exact hm
  rw [if_neg hneg'] at h
  obtain ⟨habsent, hopen⟩ := hnew ((hid_pos_iff dset).2 hneg')
  obtain ⟨hdsets, b, hb, hblength⟩ := hopen ddesc.length (hextent ((hid_pos_iff dspace).2 hneg))
  have hkept : ∀ m b, (view s).data gid m = some b → m ≠ ddesc.named ∧
      (view s₂).data gid m = some b := by
    intro m b hm
    have hne : m ≠ ddesc.named := by
      rintro rfl
      rw [hdata₁] at habsent
      cases habsent.symm.trans hm
    rw [hothers m (.inl hne), hdata₁]
    exact ⟨hne, hm⟩
  by_cases hzero : ddesc.length = 0
  · rw [if_pos hzero] at h
    cases h
    rw [laws.sclose, laws.dclose]
    refine ⟨fun m b hm => (hkept m b hm).2, fun _ => ?_⟩
    rw [hzero] at hblength ⊢
    rw [List.length_eq_zero_iff.1 hblength] at hb
    exact hb
  · rw [if_neg hzero, check_bind_eq_some, check_bind_eq_some] at h
    obtain ⟨-, -, h⟩ := h
    obtain ⟨err, s₃, hwrite, h⟩ := bind_eq_some.1 h
    obtain ⟨hothers', hwritten⟩ := laws.dwrite hdsets (Option.some.inj hwrite)
    cases h
    rw [laws.sclose, laws.dclose]
    refine ⟨fun m b hm => ?_, fun hok => ?_⟩
    · obtain ⟨hne, hm'⟩ := hkept m b hm
      rw [hothers' m hne]
      exact hm'
    · have herr : err ≥ 0 := by
        by_contra hlt
        rw [if_pos (not_le.1 hlt)] at hok
        cases hok
      rw [DsetDesc.named, hwritten herr]
      exact congrArg some (memBytes_of_keepsMem inUse (hkeeps₁.trans hkeeps₂))

end H5.DataLaws

/-- If the library makes no error and no assertion fails, a dataset is said to be all right. -/
theorem createDset_of_written {rc : CapStatus} (h : h5.createDset ddesc gid s = some (rc, s₁))
    (written : Written h5 ddesc gid s s') : rc = .ok ∧ s₁ = s' := by
  have hready : ddesc.Ready := by
    unfold H5.createDset at h
    rw [check_bind_eq_some, check_bind_eq_some] at h
    obtain ⟨hname, hbuffer, h⟩ := h
    refine ⟨hname, hbuffer, fun hzero => ?_⟩
    obtain ⟨dspace, s₂, hspace, h⟩ := bind_eq_some.1 h
    have hspace := Option.some.inj hspace
    have hpos : (h5.screate ddesc.length s).1.val > 0 := written.1
    rw [hspace] at hpos
    rw [if_neg ((hid_pos_iff _).1 hpos)] at h
    obtain ⟨dset, s₃, hdset, h⟩ := bind_eq_some.1 h
    have hdset := Option.some.inj hdset
    have hpos' : (h5.dcreate gid (ddesc.dsetname.getD []) (h5.screate ddesc.length s).1
      (h5.screate ddesc.length s).2).1.val > 0 := written.2.1
    rw [hspace, hdset] at hpos'
    rw [if_neg ((hid_pos_iff _).1 hpos'), if_neg hzero, check_bind_eq_some,
      check_bind_eq_some] at h
    exact h.2.1
  have hok := createDset_ok_iff.2 ⟨hready, written⟩
  cases h.symm.trans hok
  exact ⟨rfl, rfl⟩

namespace H5.DataLaws

/-- The loop keeps what is in the group, and a dataset that has been created and written gets what
the documentation says. -/
theorem data_writeDsets (laws : h5.DataLaws bytes view)
    (loaded : List.Forall₂ (Loaded bytes mem (view s)) ddescs ddescs')
    (h : h5.writeDsets gid ddescs' s = some ((), s')) :
    (∀ m b, (view s).data gid m = some b → (view s').data gid m = some b) ∧
      ∀ k, AllWritten h5 gid (ddescs'.take k) s → ∀ ddesc ∈ ddescs.take k,
        (view s').data gid ddesc.named = some (ddesc.slice bytes mem) := by
  induction ddescs' generalizing ddescs s with
  | nil =>
    cases loaded
    cases h
    refine ⟨fun _ _ hm => hm, fun k _ ddesc hmem => ?_⟩
    rw [List.take_nil] at hmem
    cases hmem
  | cons ddesc' ddescs' ih =>
    obtain _ | @⟨ddesc, _, ddescs, _, hfirst, hrest⟩ := loaded
    obtain ⟨rc, s₁, hcreate, h⟩ := bind_eq_some.1 h
    obtain ⟨hkept, hnew⟩ := laws.data_createDset hfirst.inUse hcreate
    by_cases hrc : rc ≠ .ok
    · rw [if_pos hrc] at h
      cases h
      refine ⟨hkept, fun k hall d hmem => ?_⟩
      cases k with
      | zero => cases hmem
      | succ k =>
        obtain ⟨s₂, hwritten, -⟩ := hall
        exact absurd (createDset_of_written hcreate hwritten).1 hrc
    · rw [if_neg hrc] at h
      obtain rfl := not_not.1 hrc
      have hkeeps := laws.keepsMem.within_createDset ddesc' gid s _ s₁ hcreate
      obtain ⟨hkept', hlater⟩ := ih (hrest.imp fun _ _ hl => hl.mono hkeeps) h
      refine ⟨fun m b hm => hkept' m b (hkept m b hm), fun k hall d hmem => ?_⟩
      cases k with
      | zero => cases hmem
      | succ k =>
        obtain ⟨s₂, hwritten, hall⟩ := hall
        obtain ⟨-, rfl⟩ := createDset_of_written hcreate hwritten
        rw [List.take_succ_cons, List.mem_cons] at hmem
        rcases hmem with rfl | hmem
        · have hslice := hnew rfl
          rw [hfirst.contents, DsetDesc.named, hfirst.name] at hslice
          exact hkept' _ _ hslice
        · exact hlater k hall d hmem

end H5.DataLaws

/-! ## The assertions -/

/-- The second assertion of `s_create_dset` fails for an empty buffer. -/
theorem createDset_empty (hbuffer : ddesc.buffer ≠ none) (hlength : ddesc.length = 0) :
    h5.createDset ddesc gid s = none := by
  cases h : h5.createDset ddesc gid s with
  | none => rfl
  | some r =>
    unfold H5.createDset at h
    rw [check_bind_eq_some, check_bind_eq_some, if_neg hbuffer] at h
    omega

theorem returns_createDset (h5 : H5 σ) (gid : ℤ) (ready : ddesc.Ready) :
    Returns (h5.createDset ddesc gid) fun _ => True := by
  obtain ⟨hname, hbuffer, hoffset⟩ := ready
  refine returns_check_bind hname (returns_check_bind hbuffer (returns_call_bind fun dspace => ?_))
  refine returns_ite (fun _ => returns_pure trivial) fun _ => returns_call_bind fun dset => ?_
  refine returns_ite (fun _ => returns_act_bind (returns_pure trivial)) fun _ => ?_
  refine returns_ite (fun _ => returns_act_bind (returns_act_bind (returns_pure trivial)))
    fun hzero => ?_
  have hsome : ddesc.buffer ≠ none := fun hnone => hzero (by rwa [if_pos hnone] at hbuffer)
  refine returns_check_bind hsome (returns_check_bind (hoffset hzero) (returns_call_bind fun _ => ?_))
  exact returns_act_bind (returns_act_bind (returns_pure trivial))

/-- A dataset that is given as a buffer of length zero gets its turn. -/
def ReachesEmpty (h5 : H5 σ) (gid : ℤ) (ddescs ddescs' : List DsetDesc) (s : σ) : Prop :=
  ∃ k ddesc, ddescs[k]? = some ddesc ∧ ddesc.buffer ≠ none ∧ ddesc.length = 0 ∧
    AllWritten h5 gid (ddescs'.take k) s

theorem reachesEmpty_cons (ready : ddesc.buffer ≠ none → ddesc.length ≠ 0) :
    ReachesEmpty h5 gid (ddesc :: ddescs) (ddesc' :: ddescs') s ↔
      ∃ s', Written h5 ddesc' gid s s' ∧ ReachesEmpty h5 gid ddescs ddescs' s' := by
  constructor
  · rintro ⟨k, d, hk, hbuffer, hlength, hall⟩
    cases k with
    | zero =>
      obtain rfl := Option.some.inj hk
      exact absurd hlength (ready hbuffer)
    | succ k =>
      obtain ⟨s', hwritten, hall⟩ := hall
      exact ⟨s', hwritten, k, d, hk, hbuffer, hlength, hall⟩
  · rintro ⟨s', hwritten, k, d, hk, hbuffer, hlength, hall⟩
    exact ⟨k + 1, d, hk, hbuffer, hlength, s', hwritten, hall⟩

/-- No assertion fails in the loop just if an empty buffer does not get its turn. -/
theorem exists_writeDsets_iff (maps : List.Forall₂ DsetDesc.MapsTo ddescs ddescs')
    (valid : ∀ ddesc ∈ ddescs, ddesc.Valid) :
    (∃ s', h5.writeDsets gid ddescs' s = some ((), s')) ↔
      ¬ ReachesEmpty h5 gid ddescs ddescs' s := by
  induction maps generalizing s with
  | nil => exact iff_of_true ⟨s, rfl⟩ fun ⟨k, ddesc, hk, _⟩ => by cases hk
  | @cons ddesc ddesc' ddescs ddescs' hfirst _ ih =>
    rw [List.forall_mem_cons] at valid
    by_cases hempty : ddesc.buffer ≠ none ∧ ddesc.length = 0
    swap
    · have hready : ddesc.buffer ≠ none → ddesc.length ≠ 0 := not_and.1 hempty
      obtain ⟨rc, s₁, hcreate, -⟩ :=
        returns_createDset h5 gid ((hfirst.ready_iff valid.1).2 hready) s
      rw [reachesEmpty_cons hready, H5.writeDsets, bind_run, hcreate, Option.bind_some]
      by_cases hrc : rc ≠ .ok
      · rw [if_pos hrc]
        refine iff_of_true ⟨s₁, rfl⟩ ?_
        rintro ⟨s', hwritten, -⟩
        exact hrc (createDset_of_written hcreate hwritten).1
      · obtain rfl := not_not.1 hrc
        rw [if_neg hrc, ih valid.2, not_iff_not]
        constructor
        · exact fun hempty => ⟨s₁, (createDset_ok_iff.1 hcreate).2, hempty⟩
        · rintro ⟨s', hwritten, hempty⟩
          obtain ⟨-, rfl⟩ := createDset_of_written hcreate hwritten
          exact hempty
    · refine iff_of_false ?_ (not_not.2 ⟨0, ddesc, rfl, hempty.1, hempty.2, trivial⟩)
      rintro ⟨s', h⟩
      have hfile : ddesc.filename = none := by
        by_contra hfile
        exact valid.1 (.inr (.inr (.inl ⟨hfile, hempty.1⟩)))
      rw [DsetDesc.MapsTo, if_pos hfile] at hfirst
      obtain ⟨rc, s₁, hcreate, -⟩ := bind_eq_some.1 h
      rw [hfirst, createDset_empty hempty.1 hempty.2] at hcreate
      cases hcreate

/-! ## The datasets of a request -/

/-- No assertion fails in the conversion, and every dataset that has been created and written has got
what the documentation says. -/
def GetsSlices (h5 : H5 σ) (bytes : CStr → List UInt8) (view : σ → DataView) (creq : ConvReq)
    (s : σ) : Prop :=
  (∃ r, h5.hdf5Init ⟨creq, creq.dsets.getD [], -1, -1⟩ s = some r) ∧
  ∀ data s₁, Inits h5 creq s data s₁ →
    ∃ s', h5.writeDsets data.groupId data.dsets s₁ = some ((), s') ∧
      ∀ k, AllWritten h5 data.groupId (data.dsets.take k) s₁ →
        ∀ ddesc ∈ (creq.dsets.getD []).take k,
          (view s').data data.groupId ddesc.named = some (ddesc.slice bytes (view s).mem)

theorem H5.DataLaws.loaded_init (laws : h5.DataLaws bytes view) (valid : creq.Valid)
    (inUse : ∀ ddesc ∈ creq.dsets.getD [], ddesc.filename = none → ddesc.InUse (view s))
    (inits : Inits h5 creq s data s₁) :
    List.Forall₂ (Loaded bytes (view s).mem (view s₁)) (creq.dsets.getD []) data.dsets := by
  have steps := laws.keepsMem
  cases initEnds_of_hdf5Init inits with
  | noGroup _ _ _ _ _ _ hrc => split_ifs at hrc
  | notMapped _ _ _ _ _ _ _ hrc => exact absurd rfl hrc
  | @done fid rootGid ovrwtGid _ bkpgroup _ _ _ s₄ _ _ hopen hroot hpos hovrwt hclient hpos' hmap =>
    have hkeeps : KeepsMem (view s) (view (h5.closeGroups rootGid ovrwtGid s₄)) := by
      have h₁ := steps.within_openFile creq s _ _ hopen
      have h₂ := steps.within_getGrp fid ROOT_GROUP true _ _ _ hroot
      have h₃ := steps.within_ovrwtGrp creq fid _ _ _ hovrwt
      have h₄ := steps.within_crtGrp rootGid _ ovrwtGid bkpgroup _ _ _ hclient
      refine ((h₁.trans h₂).trans (h₃.trans h₄)).trans ((steps.gclose rootGid s₄).trans ?_)
      unfold H5.closeGroups
      split_ifs
      · exact steps.gclose ovrwtGid _
      · exact KeepsMem.refl _
    refine laws.loaded_mapFiles (fun ddesc hmem hfile => ?_) hmap
    exact (loaded_buffer (valid.2 ddesc hmem) hfile (inUse ddesc hmem hfile)).mono hkeeps

/-- The datasets of a request get what the documentation says and no assertion fails, just if no
dataset that is given as a buffer of length zero gets its turn. -/
theorem gets_slices_iff (laws : h5.DataLaws bytes view) (valid : creq.Valid)
    (inUse : ∀ ddesc ∈ creq.dsets.getD [], ddesc.filename = none → ddesc.InUse (view s)) :
    GetsSlices h5 bytes view creq s ↔ ∀ data s₁, Inits h5 creq s data s₁ →
      ¬ ReachesEmpty h5 data.groupId (creq.dsets.getD []) data.dsets s₁ := by
  obtain ⟨r, s₀, hinit, hmaps⟩ :=
    H5.returns_hdf5Init h5 ⟨creq, creq.dsets.getD [], -1, -1⟩ valid.2 s
  rw [GetsSlices, and_iff_right ⟨_, hinit⟩]
  refine forall_congr' fun data => forall_congr' fun s₁ => forall_congr' fun inits => ?_
  cases hinit.symm.trans inits
  rw [← exists_writeDsets_iff (hmaps rfl) valid.2]
  constructor
  · rintro ⟨s', hwrite, -⟩
    exact ⟨s', hwrite⟩
  · rintro ⟨s', hwrite⟩
    have hloaded := laws.loaded_init valid inUse inits
    exact ⟨s', hwrite, (laws.data_writeDsets hloaded hwrite).2⟩

/-! ## The reference -/

theorem lookup_dropKey_of_ne {κ β : Type} [DecidableEq κ] [BEq κ] [LawfulBEq κ] {k k' : κ}
    (h : k' ≠ k) (l : List (κ × β)) : (dropKey k l).lookup k' = l.lookup k' := by
  induction l with
  | nil => rfl
  | cons p l ih =>
    obtain ⟨k₀, b⟩ := p
    rw [dropKey, List.filter_cons]
    by_cases hk : k₀ = k
    · subst hk
      rw [if_neg (by simp), List.lookup_cons, beq_eq_false_iff_ne.2 h]
      exact ih
    · rw [if_pos (by simpa using hk), List.lookup_cons, List.lookup_cons]
      split
      · rfl
      · exact ih

namespace World

variable {w w' : World} {disk : List (CStr × List UInt8)}

/-- What a conversion sees of the reference. -/
def dataView (w : World) : DataView where
  mem a := w.mem.getD a 0
  used a := a < w.mem.length
  fds fd := w.fds.lookup fd
  spaces dspace := w.spaces.lookup dspace
  dsets dset := w.dsets.lookup dset
  data gid name := (w.groupOf gid).bind fun g => g.1.sets.lookup (g.2, name)

theorem keepsMem_of_eq (h : w'.mem = w.mem) : KeepsMem w.dataView w'.dataView := by
  intro a ha
  constructor
  · simpa only [dataView, h] using ha
  · simp only [dataView, h]

theorem keepsMem_mmap (w : World) (length : ℤ) (fd : ℕ) :
    KeepsMem w.dataView (w.mmap disk length fd).2.dataView := by
  unfold mmap
  split
  · intro a ha
    simp only [dataView] at ha ⊢
    rw [List.length_append, List.getD_eq_getElem?_getD, List.getElem?_append_left ha,
      ← List.getD_eq_getElem?_getD]
    exact ⟨by omega, rfl⟩
  · exact KeepsMem.refl _

theorem steps_keepsMem :
    (calls disk).Steps fun w w' => KeepsMem w.dataView w'.dataView where
  refl w := KeepsMem.refl _
  trans _ _ _ := KeepsMem.trans
  fopen _ w := keepsMem_of_eq (by simp only [calls, fopen]; split <;> rfl)
  fcreate _ w := keepsMem_of_eq rfl
  fclose _ w := keepsMem_of_eq rfl
  lexists _ _ w := keepsMem_of_eq (by simp only [calls, lexists]; split <;> rfl)
  lcopy _ _ _ _ w := keepsMem_of_eq (by simp only [calls, lcopy]; (repeat' split) <;> rfl)
  ldelete _ _ w := keepsMem_of_eq (by simp only [calls, ldelete]; (repeat' split) <;> rfl)
  gopen _ _ w := keepsMem_of_eq (by simp only [calls, gopen]; (repeat' split) <;> rfl)
  gcreate _ _ w := keepsMem_of_eq (by simp only [calls, gcreate]; (repeat' split) <;> rfl)
  gclose _ w := keepsMem_of_eq rfl
  screate _ w := keepsMem_of_eq rfl
  sclose _ w := keepsMem_of_eq rfl
  dcreate _ _ _ w := keepsMem_of_eq (by simp only [calls, dcreate]; (repeat' split) <;> rfl)
  dwrite _ _ w := keepsMem_of_eq (by simp only [calls, dwrite]; (repeat' split) <;> rfl)
  dclose _ w := keepsMem_of_eq rfl
  access _ w := keepsMem_of_eq rfl
  unlink _ w := keepsMem_of_eq (by simp only [calls, unlink]; split <;> rfl)
  openFd _ w := keepsMem_of_eq (by simp only [calls, openFd]; split <;> rfl)
  lseekEnd _ w := keepsMem_of_eq rfl
  closeFd _ w := keepsMem_of_eq rfl
  mmap length fd w := keepsMem_mmap w length fd
  time w := keepsMem_of_eq rfl

theorem groupOf_eq_some {gid : ℤ} {f : Store} {o : ℕ} :
    w.groupOf gid = some (f, o) ↔ w.file = some f ∧ w.groups.lookup gid = some o := by
  unfold groupOf
  cases w.file <;> cases w.groups.lookup gid <;> simp

theorem dataLaws (disk : List (CStr × List UInt8)) :
    (calls disk).DataLaws (diskBytes disk) dataView where
  keepsMem := steps_keepsMem
  openFd := by
    intro f w fd w' h
    simp only [calls, openFd] at h
    split at h
    · cases h
      simp [dataView]
    · cases h
  lseekEnd := by
    intro fd f n w w' hfd h
    have hfd : w.fds.lookup fd = some f := hfd
    simp only [calls, lseekEnd, hfd, Option.map_some] at h
    cases h
    exact ⟨rfl, hfd⟩
  mmap := by
    intro fd f length addr w w' hfd h hlength i hi
    have hfd : w.fds.lookup fd = some f := hfd
    simp only [calls, mmap, hfd] at h
    cases h
    simp only [dataView]
    have hbound : i < ((diskBytes disk f).take length.toNat).length := by
      rw [List.length_take]
      omega
    rw [List.length_append, List.getD_eq_getElem?_getD, List.getElem?_append_right (by omega),
      Nat.add_sub_cancel_left, List.getElem?_take, if_pos (by omega), List.getD_eq_getElem?_getD]
    exact ⟨by omega, rfl⟩
  screate := by
    intro n dspace w w' h
    cases h
    exact ⟨fun _ => by simp [dataView], rfl⟩
  dcreate := by
    intro gid name dspace dset w w' h
    simp only [calls, dcreate] at h
    split at h
    next f o n hgroup hspace =>
      split_ifs at h with habsent
      · obtain ⟨hfile, hlookup⟩ := groupOf_eq_some.1 hgroup
        cases h
        refine ⟨fun m hm => ?_, fun _ => ⟨?_, fun k hk => ⟨?_, List.replicate n.toNat 0, ?_, ?_⟩⟩⟩
        · have hne : m ≠ name := hm.resolve_right (by simp only [freshId]; omega)
          have hpair : (o, m) ≠ (o, name) := by simpa using hne
          simp only [dataView, groupOf, hfile, hlookup, Option.bind_some, List.lookup_cons,
            beq_eq_false_iff_ne.2 hpair]
        · simp only [dataView, groupOf, hfile, hlookup, Option.bind_some, habsent.2]
        · cases hspace.symm.trans hk
          simp [dataView]
        · simp only [dataView, groupOf, hlookup, Option.bind_some, List.lookup_cons_self]
        · cases hspace.symm.trans hk
          exact List.length_replicate
      · cases h
        exact ⟨fun _ _ => rfl, fun h => absurd h (by decide)⟩
    · cases h
      exact ⟨fun _ _ => rfl, fun h => absurd h (by decide)⟩
  dwrite := by
    intro gid name dset addr err n w w' hdset h
    have hdset : w.dsets.lookup dset = some (gid, name, n) := hdset
    simp only [calls, dwrite, hdset] at h
    split at h
    next f o hgroup =>
      obtain ⟨hfile, hlookup⟩ := groupOf_eq_some.1 hgroup
      cases h
      refine ⟨fun m hne => ?_, fun _ => ?_⟩
      · have hpair : (o, m) ≠ (o, name) := by simpa using hne
        simp only [dataView, groupOf, hfile, hlookup, Option.bind_some, List.lookup_cons,
          beq_eq_false_iff_ne.2 hpair]
        exact lookup_dropKey_of_ne hpair f.sets
      · simp only [dataView, groupOf, hlookup, Option.bind_some, List.lookup_cons_self]
        rfl
    · cases h
      exact ⟨fun _ _ => rfl, fun h => absurd h (by decide)⟩
  sclose _ _ := rfl
  dclose _ _ := rfl

end World

/-! ## Requests that are run on it -/

namespace World

/-- A data file of five bytes. -/
def fiveBytes : List (CStr × List UInt8) := [("a.dat".toList, [10, 11, 12, 13, 14])]

/-- There is no hdf5 file, and eight bytes of memory are in use. -/
def start : World := ⟨none, [], [], [], [1, 2, 3, 4, 5, 6, 7, 8], [], false, 7⟩

end World

/-- A request for these datasets. -/
def reqOf (ddescs : List DsetDesc) : ConvReq where
  filename := some "a.hdf5".toList
  group := some "m".toList
  dsets := some ddescs
  ovrwtmode := 0
  async := false

/-- Three bytes of the file, from the fourth last on, and two bytes of memory. -/
def fileAndBuffer : List DsetDesc :=
  [⟨some "f".toList, -4, 3, some "a.dat".toList, none⟩, ⟨some "b".toList, 1, 2, none, some 2⟩]

/-- How the initialization ends, and what is in the datasets after the loop, if no assertion
fails. -/
def World.converted (creq : ConvReq) (s : World) :
    Option (CapStatus × Option (List (Option (List UInt8)))) :=
  ((World.calls World.fiveBytes).hdf5Init ⟨creq, creq.dsets.getD [], -1, -1⟩ s).map fun r =>
    (r.1.1, ((World.calls World.fiveBytes).writeDsets r.1.2.groupId r.1.2.dsets r.2).map fun r' =>
      (creq.dsets.getD []).map fun ddesc => r'.2.dataView.data r.1.2.groupId ddesc.named)

theorem gets_slices_iff_two :
    GetsSlices (World.calls World.fiveBytes) (World.diskBytes World.fiveBytes) World.dataView
      (reqOf fileAndBuffer) World.start ∧
    World.converted (reqOf fileAndBuffer) World.start =
      some (.ok, some [some [11, 12, 13], some [4, 5]]) := by
  refine ⟨(gets_slices_iff (World.dataLaws World.fiveBytes) (by decide) ?_).2 ?_, by decide +kernel⟩
  · intro ddesc hmem hfile i hi
    simp only [reqOf, fileAndBuffer, Option.getD_some, List.mem_cons, List.not_mem_nil,
      or_false] at hmem
    rcases hmem with rfl | rfl
    · cases hfile
    · change i < 2 at hi
      change 3 + i < 8
      omega
  · rintro data s₁ - ⟨k, ddesc, hk, hbuffer, hlength, -⟩
    have hmem := List.mem_of_getElem? hk
    simp only [reqOf, fileAndBuffer, Option.getD_some, List.mem_cons, List.not_mem_nil,
      or_false] at hmem
    rcases hmem with rfl | rfl
    · exact hbuffer rfl
    · cases hlength

/-- A buffer of length zero passes the check of the request, and then an assertion fails. -/
theorem not_gets_slices : ¬ ∀ (creq : ConvReq) (s : World), creq.Valid →
    (∀ ddesc ∈ creq.dsets.getD [], ddesc.filename = none → ddesc.InUse s.dataView) →
    GetsSlices (World.calls World.fiveBytes) (World.diskBytes World.fiveBytes) World.dataView
      creq s := by
  intro h
  have hslices := h (reqOf [⟨some "b".toList, 0, 0, none, some 2⟩]) World.start (by decide) ?_
  · have hconv : World.converted (reqOf [⟨some "b".toList, 0, 0, none, some 2⟩]) World.start =
        some (.ok, none) := by decide +kernel
    obtain ⟨⟨⟨rc, data⟩, s₁⟩, hinit, hr⟩ := Option.map_eq_some_iff.1 hconv
    obtain ⟨rfl, hwrite⟩ := Prod.mk.inj hr
    obtain ⟨s', hwrite', -⟩ := hslices.2 data s₁ hinit
    rw [hwrite'] at hwrite
    cases hwrite
  · intro ddesc hmem _ i hi
    simp only [reqOf, Option.getD_some, List.mem_singleton] at hmem
    subst hmem
    cases hi

end Tesd
