import Mathlib.Data.List.Nodup
import Tesd.Hdf5World
import Tesd.Hdf5Steps
import Tesd.Slices
import Tesd.Lib.LinkTree

/-!
# The groups in the hdf5 file

What is asked of the hdf5 library about groups, and what the parts of `s_hdf5_init` then do with the
tree of groups, whatever calls fail.
-/

namespace Tesd

open Asserting

variable {σ ι γ : Type} {h5 : H5 σ} {creq : ConvReq} {data data' : CreqData} {filename : CStr}
  {s s' : σ} {lid gid bkpLid : ℤ} {group bkpgroup : CStr} {c d o x : ι}

/-! ## What is asked of the library -/

/-- What is seen of an hdf5 file: its tree of groups, if there is a file, the groups that the open
identifiers stand for, and the groups in which the open datasets are. -/
structure GroupView (ι γ : Type) where
  file : Option (LinkTree ι CStr γ)
  group : ℤ → Option ι
  dset : ℤ → Option ι

namespace GroupView

variable {f : Option (LinkTree ι CStr γ)} {v v' v'' : GroupView ι γ}

/-- This is the file now, and what was open is open. -/
structure Leaves (v : GroupView ι γ) (f : Option (LinkTree ι CStr γ)) (v' : GroupView ι γ) :
    Prop where
  file : v'.file = f
  group : ∀ {gid o}, v.group gid = some o → v'.group gid = some o

/-- The file is as it was. -/
abbrev Stays (v v' : GroupView ι γ) : Prop := v.Leaves v.file v'

/-- There is a new identifier of this group, too. -/
structure Opens (v : GroupView ι γ) (f : Option (LinkTree ι CStr γ)) (gid : ℤ) (o : ι)
    (v' : GroupView ι γ) : Prop extends v.Leaves f v' where
  fresh : v.group gid = none
  opened : v'.group gid = some o

/-- No other identifier is closed. -/
structure Closes (v : GroupView ι γ) (gid : ℤ) (v' : GroupView ι γ) : Prop where
  file : v'.file = v.file
  group : ∀ {id o}, id ≠ gid → v.group id = some o → v'.group id = some o

theorem Leaves.refl (v : GroupView ι γ) : v.Stays v := ⟨rfl, id⟩

theorem Leaves.trans {f' : Option (LinkTree ι CStr γ)} (h : v.Leaves f v') (h' : v'.Leaves f' v'') :
    v.Leaves f' v'' :=
  ⟨h'.file, fun ho => h'.group (h.group ho)⟩

theorem Leaves.stays (h : v.Leaves f v') (h' : v'.Stays v'') : v.Leaves f v'' :=
  ⟨h'.file.trans h.file, fun ho => h'.group (h.group ho)⟩

theorem Leaves.opens {f' : Option (LinkTree ι CStr γ)} (h : v.Leaves f v')
    (h' : v'.Opens f' gid o v'') : v.Opens f' gid o v'' where
  toLeaves := h.trans h'.toLeaves
  fresh := by
    cases hgid : v.group gid with
    | none => rfl
    | some x => cases h'.fresh.symm.trans (h.group hgid)
  opened := h'.opened

/-- A group that has been opened is closed. -/
theorem Opens.closes (h : v.Opens f gid o v') (h' : v'.Closes gid v'') : v.Leaves f v'' := by
  refine ⟨h'.file.trans h.file, fun {id x} hx => h'.group ?_ (h.group hx)⟩
  rintro rfl
  rw [h.fresh] at hx
  cases hx

end GroupView

/-- How a process ends that calls `s_hdf5_init` and then `s_hdf5_write`, which may stop at a failed
assertion. -/
inductive H5.ForkEnds (h5 : H5 σ) (data : CreqData) (s : σ) : σ → Prop
  | notRun : ForkEnds h5 data s s
  | init {r s₁} : h5.hdf5Init data s = some (r, s₁) → ForkEnds h5 data s s₁
  | write {r s₁ n s₂} : h5.hdf5Init data s = some (r, s₁) →
      h5.writeDsets r.2.groupId (r.2.dsets.take n) s₁ = some ((), s₂) → ForkEnds h5 data s s₂

/-- What a conversion relies on, for names without slashes: a call that fails leaves the file as it
is; an identifier that is given is not in use; links are made only where there are none; a group that
is created is a new one; a created file is empty; and datasets are added to the given group only. -/
structure H5.GroupLaws (h5 : H5 σ) (filename : CStr) (view : σ → GroupView ι γ) : Prop where
  access : ∀ s, (view s).Stays (view (h5.access filename s).2)
  fopen : ∀ {s fid s'}, h5.fopen filename s = (fid, s') →
    (fid.val < 0 → (view s).Stays (view s')) ∧
    (fid.val > 0 → ∃ t, (view s).file = some t ∧ (view s).Opens (some t) fid t.root (view s'))
  fcreate : ∀ {s fid s'}, h5.fcreate filename s = (fid, s') →
    (fid.val < 0 → (view s).Stays (view s')) ∧
    (fid.val > 0 → ∃ t, (∀ p n, t.link p n = none) ∧
      (view s).Opens (some t) fid t.root (view s'))
  lexists : ∀ {lid group s r s' t o}, '/' ∉ group → (view s).file = some t →
    (view s).group lid = some o → h5.lexists lid group s = (r, s') → (view s).Stays (view s') ∧
    (r = 0 → t.link o group = none) ∧ (r > 0 → t.link o group ≠ none)
  gopen : ∀ {lid group s gid s' t o x}, '/' ∉ group → (view s).file = some t →
    (view s).group lid = some o → t.link o group = some x → h5.gopen lid group s = (gid, s') →
    (gid.val < 0 → (view s).Stays (view s')) ∧
    (gid.val > 0 → (view s).Opens (some t) gid x (view s'))
  gcreate : ∀ {lid group s gid s' t o}, '/' ∉ group → (view s).file = some t →
    (view s).group lid = some o → h5.gcreate lid group s = (gid, s') →
    (gid.val < 0 → (view s).Stays (view s')) ∧
    (gid.val > 0 → ∃ x t', t.link o group = none ∧ t.Fresh x ∧ t.Relinks o group (some x) t' ∧
      (view s).Opens (some t') gid x (view s'))
  lcopy : ∀ {lid group dst dstgroup s r s' t o d}, '/' ∉ group → '/' ∉ dstgroup →
    (view s).file = some t → (view s).group lid = some o → (view s).group dst = some d →
    h5.lcopy lid group dst dstgroup s = (r, s') → (r < 0 → (view s).Stays (view s')) ∧
    (r ≥ 0 → ∃ x t', t.link o group = some x ∧ t.link d dstgroup = none ∧
      t.Relinks d dstgroup (some x) t' ∧ (view s).Leaves (some t') (view s'))
  ldelete : ∀ {lid group s r s' t o}, '/' ∉ group → (view s).file = some t →
    (view s).group lid = some o → h5.ldelete lid group s = (r, s') →
    (r < 0 → (view s).Stays (view s')) ∧
    (r ≥ 0 → ∃ t', t.Relinks o group none t' ∧ (view s).Leaves (some t') (view s'))
  gclose : ∀ gid s, (view s).Closes gid (view (h5.gclose gid s))
  fclose : ∀ fid s, (view s).Closes fid (view (h5.fclose fid s))
  maps : h5.MapSteps fun s s' => (view s).Stays (view s')
  time : ∀ s, (view s).Stays (view (h5.time s).2)
  screate : ∀ n s, (view s).Stays (view (h5.screate n s).2)
  sclose : ∀ dspace s, (view s).Stays (view (h5.sclose dspace s))
  dclose : ∀ dset s, (view s).Stays (view (h5.dclose dset s))
  munmap : ∀ addr length s, (view s).Stays (view (h5.munmap addr length s))
  dcreate : ∀ {gid name dspace s dset s'}, h5.dcreate gid name dspace s = (dset, s') →
    (dset.val < 0 → (view s).Stays (view s')) ∧
    (dset.val > 0 → gid > 0 ∧ ∀ {t o}, (view s).file = some t → (view s).group gid = some o →
      ∃ t', t.Fills o t' ∧ (view s).Leaves (some t') (view s') ∧ (view s').dset dset = some o)
  dwrite : ∀ {dset addr s r s' t o}, (view s).file = some t → (view s).dset dset = some o →
    h5.dwrite dset addr s = (r, s') → ∃ t', t.Fills o t' ∧ (view s).Leaves (some t') (view s')
  fork : ∀ data s, ∃ s₁, h5.ForkEnds data s s₁ ∧
    (view s).Leaves (view s₁).file (view (h5.forkAndRun data s).2)

/-- The names of the groups under which measurement groups are. -/
def collections : Set CStr := {ROOT_GROUP, OVRWT_GROUP}

/-- The names of the measurement groups in the hdf5 file. -/
def GroupView.names (v : GroupView ι γ) : Set CStr :=
  {n | ∃ t, v.file = some t ∧ n ∈ t.names ROOT_GROUP}

theorem GroupView.names_of_file {v : GroupView ι γ} {t : LinkTree ι CStr γ} (h : v.file = some t) :
    v.names = t.names ROOT_GROUP := by
  ext n
  constructor
  · rintro ⟨t', ht', hn⟩
    cases h.symm.trans ht'
    exact hn
  · exact fun hn => ⟨t, h, hn⟩

theorem GroupView.names_congr {v v' : GroupView ι γ} (h : v'.file = v.file) :
    v'.names = v.names := by
  simp only [GroupView.names, h]

/-! ## What the parts of an initialization do -/

/-- What comes of getting a group, which is created only if it has to be. -/
inductive GetsGrp (t : LinkTree ι CStr γ) (o : ι) (group : CStr) (create : Bool)
    (v : GroupView ι γ) : ℤ → GroupView ι γ → Prop
  | failed {v'} : v.Leaves (some t) v' → GetsGrp t o group create v (-1) v'
  | absent {v'} : create = false → t.link o group = none → v.Leaves (some t) v' →
      GetsGrp t o group create v 0 v'
  | found {gid x v'} : gid > 0 → t.link o group = some x → v.Opens (some t) gid x v' →
      GetsGrp t o group create v gid v'
  | created {gid x t' v'} : gid > 0 → create = true → t.link o group = none → t.Fresh x →
      t.Relinks o group (some x) t' → v.Opens (some t') gid x v' →
      GetsGrp t o group create v gid v'

/-- The file is there, and this is the group of the identifier. -/
structure GroupView.At (v : GroupView ι γ) (t : LinkTree ι CStr γ) (lid : ℤ) (o : ι) : Prop where
  file : v.file = some t
  group : v.group lid = some o

theorem GroupView.At.leaves {v v' : GroupView ι γ} {t t' : LinkTree ι CStr γ} (h : v.At t lid o)
    (h' : v.Leaves (some t') v') : v'.At t' lid o :=
  ⟨h'.file, h'.group h.group⟩

theorem GroupView.At.stays {v v' : GroupView ι γ} {t : LinkTree ι CStr γ} (h : v.At t lid o)
    (h' : v.Stays v') : v.Leaves (some t) v' :=
  ⟨h'.file.trans h.file, h'.group⟩

/-- What a conversion may leave of a tree, with the same group for the measurements. -/
structure Rearranged (t t' : LinkTree ι CStr γ) (c : ι) : Prop where
  apart : t'.Apart collections
  keeps : LinkTree.Keeps collections t t'
  root : t'.link t'.root ROOT_GROUP = some c

/-- The group is not a measurement group, and not in one. -/
def NoMember (t : LinkTree ι CStr γ) (x : ι) : Prop :=
  ∀ m, t.Member collections m → ¬ t.Below m x

variable {view : σ → GroupView ι γ} {t t' t'' : LinkTree ι CStr γ}

theorem Rearranged.trans (h : Rearranged t t' c) (h' : Rearranged t' t'' c) : Rearranged t t'' c :=
  ⟨h'.apart, h.keeps.trans h'.keeps, h'.root⟩

theorem place_of_root (hc : t.link t.root ROOT_GROUP = some c) : t.Place collections c :=
  .inr ⟨ROOT_GROUP, .inl rfl, hc⟩

theorem place_of_ovrwt (hd : t.link t.root OVRWT_GROUP = some d) : t.Place collections d :=
  .inr ⟨OVRWT_GROUP, .inr rfl, hd⟩

/-- A measurement group is copied. -/
theorem moved_copy (apart : t.Apart collections) (hc : t.link t.root ROOT_GROUP = some c)
    (hd : t.link t.root OVRWT_GROUP = some d) (hx : t.link c group = some x)
    (absent : t.link d bkpgroup = none) (h : t.Relinks d bkpgroup (some x) t') :
    Rearranged t t' c where
  apart := h.apart apart absent
    (.inr ⟨apart.ne_root hd, apart.not_place_of_link (apart.ne_root hc) hx⟩)
  keeps := h.keeps apart (place_of_ovrwt hd) absent
  root := by
    rw [h.root]
    exact h.link_of_some absent hc

/-- The link to a measurement group is deleted, which has been copied. -/
theorem moved_delete (apart : t.Apart collections) (hc : t.link t.root ROOT_GROUP = some c)
    (hd : t.link t.root OVRWT_GROUP = some d) (hcopy : t.link d bkpgroup = t.link c group)
    (hne : bkpgroup ≠ group) (h : t.Relinks c group none t') : Rearranged t t' c where
  apart := h.apart_of_none apart
  keeps := h.keeps_of_other apart (.inl rfl) hc (.inr rfl) hd hcopy fun _ => hne
  root := by
    rw [h.root, h.links fun heq => absurd heq.symm (apart.ne_root hc), hc]

/-- A measurement group is created. -/
theorem moved_create (apart : t.Apart collections) (hc : t.link t.root ROOT_GROUP = some c)
    (absent : t.link c group = none) (hx : t.Fresh x) (h : t.Relinks c group (some x) t') :
    Rearranged t t' c where
  apart := h.apart apart absent (.inl hx)
  keeps := h.keeps apart (place_of_root hc) absent
  root := by
    rw [h.root]
    exact h.link_of_some absent hc

namespace H5.GroupLaws

theorem getsGrp (laws : h5.GroupLaws filename view) (slash : '/' ∉ group)
    (hat : (view s).At t lid o) {create : Bool}
    (h : h5.getGrp lid group create s = some (gid, s')) :
    GetsGrp t o group create (view s) gid (view s') := by
  unfold H5.getGrp at h
  rw [check_bind_eq_some] at h
  obtain ⟨-, h⟩ := h
  obtain ⟨gstat, s₁, hlexists, h⟩ := bind_eq_some.1 h
  obtain ⟨hstays, hnone, hsome⟩ :=
    laws.lexists slash hat.file hat.group (Option.some.inj hlexists)
  have hleaves := hat.stays hstays
  have hat₁ := hat.leaves hleaves
  split_ifs at h with hneg habsent hpos
  · cases h
    exact .failed hleaves
  · cases h
    exact .absent habsent.2 (hnone habsent.1) hleaves
  · obtain ⟨gid', s₂, hopen, h⟩ := bind_eq_some.1 h
    obtain ⟨x, hx⟩ := Option.ne_none_iff_exists'.1 (hsome hpos)
    obtain ⟨hfails, hopens⟩ := laws.gopen slash hat₁.file hat₁.group hx (Option.some.inj hopen)
    split_ifs at h with hneg'
    · cases h
      exact .failed (hleaves.trans (hat₁.stays (hfails hneg')))
    · cases h
      have hpos' := (hid_pos_iff gid').2 hneg'
      exact .found hpos' hx (hleaves.opens (hopens hpos'))
  · obtain ⟨gid', s₂, hcreate, h⟩ := bind_eq_some.1 h
    obtain ⟨hfails, hopens⟩ := laws.gcreate slash hat₁.file hat₁.group (Option.some.inj hcreate)
    have hzero : gstat = 0 := by omega
    have hcreated : create = true := by
      cases create with
      | false => exact absurd ⟨hzero, rfl⟩ habsent
      | true => rfl
    split_ifs at h with hneg'
    · cases h
      exact .failed (hleaves.trans (hat₁.stays (hfails hneg')))
    · cases h
      have hpos' := (hid_pos_iff gid').2 hneg'
      obtain ⟨x, t', hx, hfresh, hlinks, hopens⟩ := hopens hpos'
      exact .created hpos' hcreated hx hfresh hlinks (hleaves.opens hopens)

/-- What comes of creating a group. -/
theorem newGrp (laws : h5.GroupLaws filename view) (slash : '/' ∉ group)
    (hat : (view s).At t lid o) (h : h5.newGrp lid group s = some (gid, s')) :
    (gid = -1 ∧ (view s).Leaves (some t) (view s')) ∨ (gid > 0 ∧ ∃ x t', t.link o group = none ∧
      t.Fresh x ∧ t.Relinks o group (some x) t' ∧ (view s).Opens (some t') gid x (view s')) := by
  obtain ⟨gid', s₁, hcreate, h⟩ := bind_eq_some.1 h
  obtain ⟨hfails, hopens⟩ := laws.gcreate slash hat.file hat.group (Option.some.inj hcreate)
  split_ifs at h with hneg
  · cases h
    exact .inl ⟨rfl, hat.stays (hfails hneg)⟩
  · cases h
    have hpos := (hid_pos_iff gid').2 hneg
    exact .inr ⟨hpos, hopens hpos⟩

/-- The check that a group is not there changes nothing. -/
theorem checkNoGrp (laws : h5.GroupLaws filename view) (slash : '/' ∉ group)
    (hat : (view s).At t lid o) {err r : ℤ}
    (h : h5.checkNoGrp lid group err s = some (r, s')) : (view s).Leaves (some t) (view s') := by
  obtain ⟨gid, s₁, hget, h⟩ := bind_eq_some.1 h
  have hgot := laws.getsGrp slash hat hget
  split_ifs at h with hpos
  · cases h
    cases hgot with
    | failed => exact absurd hpos (by decide)
    | absent => exact absurd hpos (by decide)
    | found _ _ hopens => exact hopens.closes (laws.gclose gid s₁)
    | created _ hcreate => cases hcreate
  · cases h
    cases hgot with
    | failed hleaves => exact hleaves
    | absent _ _ hleaves => exact hleaves
    | found hpos' => exact absurd hpos' hpos
    | created hpos' => exact absurd hpos' hpos

/-- A group is renamed, or only copied, or neither. -/
theorem renameGrp (laws : h5.GroupLaws filename view) (slash : '/' ∉ group)
    (slash' : '/' ∉ bkpgroup) (hne : bkpgroup ≠ group) (apart : t.Apart collections)
    (hc : t.link t.root ROOT_GROUP = some c) (hd : t.link t.root OVRWT_GROUP = some d)
    (hat : (view s).At t lid c) (hat' : (view s).At t bkpLid d) {err : ℤ}
    (h : h5.renameGrp lid group bkpLid bkpgroup s = some (err, s')) :
    ∃ t', Rearranged t t' c ∧ (view s).Leaves (some t') (view s') := by
  unfold H5.renameGrp at h
  rw [check_bind_eq_some] at h
  obtain ⟨-, h⟩ := h
  obtain ⟨err₁, s₁, hcheck, h⟩ := bind_eq_some.1 h
  obtain ⟨err₂, s₂, hcopy, h⟩ := bind_eq_some.1 h
  obtain ⟨err₃, s₃, hdelete, hcheck'⟩ := bind_eq_some.1 h
  have hleaves₁ := laws.checkNoGrp slash' hat' hcheck
  have hat₁ := hat.leaves hleaves₁
  have hsame : Rearranged t t c := ⟨apart, .refl t, hc⟩
  suffices hsteps : ∃ t', Rearranged t t' c ∧ (view s₁).Leaves (some t') (view s₃) by
    obtain ⟨t', hmoved, hleaves₃⟩ := hsteps
    have hleaves := hleaves₁.trans hleaves₃
    exact ⟨t', hmoved, hleaves.trans (laws.checkNoGrp slash (hat.leaves hleaves) hcheck')⟩
  by_cases herr₁ : err₁ ≥ 0
  · rw [if_pos herr₁] at hcopy
    obtain ⟨hfails, hcopies⟩ := laws.lcopy slash slash' hat₁.file hat₁.group
      (hat'.leaves hleaves₁).group (Option.some.inj hcopy)
    by_cases herr₂ : err₂ ≥ 0
    · rw [if_pos herr₂] at hdelete
      obtain ⟨x, t₁, hx, habsent, hlinks, hleaves₂⟩ := hcopies herr₂
      have hmoved := moved_copy apart hc hd hx habsent hlinks
      have hat₂ := hat₁.leaves hleaves₂
      obtain ⟨hfails, hdeletes⟩ := laws.ldelete slash hat₂.file hat₂.group (Option.some.inj hdelete)
      by_cases herr₃ : err₃ ≥ 0
      · obtain ⟨t₂, hlinks', hleaves₃⟩ := hdeletes herr₃
        have hd₁ : t₁.link t₁.root OVRWT_GROUP = some d := by
          rw [hlinks.root]
          exact hlinks.link_of_some habsent hd
        have hcopied : t₁.link d bkpgroup = t₁.link c group := by
          rw [hlinks.link, hlinks.link_of_some habsent hx]
        exact ⟨t₂, hmoved.trans (moved_delete hmoved.apart hmoved.root hd₁ hcopied hne hlinks'),
          hleaves₂.trans hleaves₃⟩
      · exact ⟨t₁, hmoved, hleaves₂.stays (hfails (Int.not_le.1 herr₃))⟩
    · rw [if_neg herr₂] at hdelete
      cases hdelete
      exact ⟨t, hsame, hat₁.stays (hfails (Int.not_le.1 herr₂))⟩
  · rw [if_neg herr₁] at hcopy
    cases hcopy
    rw [if_neg herr₁] at hdelete
    cases hdelete
    exact ⟨t, hsame, hat₁.stays (.refl _)⟩

end H5.GroupLaws

/-- What comes of creating a measurement group, in which the old one may be renamed. -/
inductive CrtGrp (h5 : H5 σ) (view : σ → GroupView ι γ) (t : LinkTree ι CStr γ) (c : ι)
    (lid : ℤ) (group : CStr) (bkpLid : ℤ) (bkpgroup : CStr) (s : σ) : ℤ → σ → Prop
  | failed {s' : σ} : (view s).Leaves (some t) (view s') →
      CrtGrp h5 view t c lid group bkpLid bkpgroup s (-1) s'
  | there {s' : σ} : bkpLid ≤ 0 → t.link c group ≠ none → (view s).Leaves (some t) (view s') →
      CrtGrp h5 view t c lid group bkpLid bkpgroup s 0 s'
  | new {gid : ℤ} {s₁ s' : σ} : t.link c group = none → (view s).Leaves (some t) (view s₁) →
      h5.newGrp lid group s₁ = some (gid, s') →
      CrtGrp h5 view t c lid group bkpLid bkpgroup s gid s'
  | notRenamed {err : ℤ} {s₁ s' : σ} : bkpLid > 0 → (view s).Leaves (some t) (view s₁) →
      h5.renameGrp lid group bkpLid bkpgroup s₁ = some (err, s') →
      CrtGrp h5 view t c lid group bkpLid bkpgroup s (-1) s'
  | renamed {gid err : ℤ} {s₁ s₂ s' : σ} : bkpLid > 0 → (view s).Leaves (some t) (view s₁) →
      h5.renameGrp lid group bkpLid bkpgroup s₁ = some (err, s₂) →
      h5.newGrp lid group s₂ = some (gid, s') →
      CrtGrp h5 view t c lid group bkpLid bkpgroup s gid s'

namespace H5.GroupLaws

theorem crtGrp (laws : h5.GroupLaws filename view) (slash : '/' ∉ group)
    (hat : (view s).At t lid c) (h : h5.crtGrp lid group bkpLid bkpgroup s = some (gid, s')) :
    CrtGrp h5 view t c lid group bkpLid bkpgroup s gid s' := by
  unfold H5.crtGrp at h
  rw [check_bind_eq_some] at h
  obtain ⟨-, h⟩ := h
  obtain ⟨old, s₁, hget, h⟩ := bind_eq_some.1 h
  cases laws.getsGrp slash hat hget with
  | failed hleaves =>
    cases h
    exact .failed hleaves
  | absent _ habsent hleaves => exact .new habsent hleaves h
  | created _ hcreate => cases hcreate
  | found hpos hx hopens =>
    rw [if_neg (by omega), if_pos hpos] at h
    have hleaves := hopens.closes (laws.gclose old s₁)
    obtain ⟨_, s₂, hclose, h⟩ := bind_eq_some.1 h
    cases hclose
    split_ifs at h with hbkp
    · cases h
      exact .there hbkp (by simp [hx]) hleaves
    · obtain ⟨err, s₃, hrename, h⟩ := bind_eq_some.1 h
      rw [Int.not_le] at hbkp
      split_ifs at h with herr
      · cases h
        exact .notRenamed hbkp hleaves hrename
      · exact .renamed hbkp hleaves hrename h

/-- Without a backup, the group is there, or something fails, or it is created. -/
theorem crtGrp_without (laws : h5.GroupLaws filename view) (slash : '/' ∉ group)
    (hat : (view s).At t lid c) (hbkp : bkpLid ≤ 0)
    (h : h5.crtGrp lid group bkpLid bkpgroup s = some (gid, s')) :
    (gid ≤ 0 ∧ (gid = 0 → t.link c group ≠ none) ∧ (view s).Leaves (some t) (view s')) ∨
    (gid > 0 ∧ ∃ x t', t.link c group = none ∧ t.Fresh x ∧ t.Relinks c group (some x) t' ∧
      (view s).Opens (some t') gid x (view s')) := by
  cases laws.crtGrp slash hat h with
  | failed hleaves => exact .inl ⟨by decide, fun h => absurd h (by decide), hleaves⟩
  | there _ hsome hleaves => exact .inl ⟨le_rfl, fun _ => hsome, hleaves⟩
  | notRenamed hbkp' => omega
  | renamed hbkp' => omega
  | new _ hleaves hnew =>
    rcases laws.newGrp slash (hat.leaves hleaves) hnew with
      ⟨rfl, hleaves'⟩ | ⟨hpos, x, t', hx, hfresh, hlinks, hopens⟩
    · exact .inl ⟨by decide, fun h => absurd h (by decide), hleaves.trans hleaves'⟩
    · exact .inr ⟨hpos, x, t', hx, hfresh, hlinks, hleaves.opens hopens⟩

/-- A group is created only as a new one. -/
theorem newGrp_moved (laws : h5.GroupLaws filename view) (slash : '/' ∉ group)
    (apart : t.Apart collections) (hc : t.link t.root ROOT_GROUP = some c)
    (hat : (view s).At t lid c) (h : h5.newGrp lid group s = some (gid, s')) :
    ∃ t', Rearranged t t' c ∧ (view s).Leaves (some t') (view s') ∧ (gid > 0 →
      ∃ x, (view s).Opens (some t') gid x (view s') ∧ t.Fresh x) := by
  rcases laws.newGrp slash hat h with
    ⟨rfl, hleaves⟩ | ⟨-, x, t', habsent, hfresh, hlinks, hopens⟩
  · exact ⟨t, ⟨apart, .refl t, hc⟩, hleaves, fun h => absurd h (by decide)⟩
  · exact ⟨t', moved_create apart hc habsent hfresh hlinks, hopens.toLeaves,
      fun _ => ⟨x, hopens, hfresh⟩⟩

/-- The client's group, if it is created, is not below any measurement group that was there. -/
theorem crtGrp_moved (laws : h5.GroupLaws filename view) (slash : '/' ∉ group)
    (apart : t.Apart collections) (hc : t.link t.root ROOT_GROUP = some c)
    (hat : (view s).At t lid c)
    (hbkp : bkpLid > 0 → '/' ∉ bkpgroup ∧ bkpgroup ≠ group ∧
      ∃ d, t.link t.root OVRWT_GROUP = some d ∧ (view s).group bkpLid = some d)
    (h : h5.crtGrp lid group bkpLid bkpgroup s = some (gid, s')) :
    ∃ t', Rearranged t t' c ∧ (view s).Leaves (some t') (view s') ∧ (gid > 0 →
      ∃ x, (view s).Opens (some t') gid x (view s') ∧ NoMember t x) := by
  have hsame : Rearranged t t c := ⟨apart, .refl t, hc⟩
  have hnew : ∀ {s₁ t₁}, Rearranged t t₁ c → (view s).Leaves (some t₁) (view s₁) →
      h5.newGrp lid group s₁ = some (gid, s') →
      ∃ t', Rearranged t t' c ∧ (view s).Leaves (some t') (view s') ∧ (gid > 0 →
        ∃ x, (view s).Opens (some t') gid x (view s') ∧ NoMember t x) := by
    intro s₁ t₁ hmoved hleaves hnew
    obtain ⟨t', hmoved', hleaves', hfresh⟩ :=
      laws.newGrp_moved slash hmoved.apart hmoved.root (hat.leaves hleaves) hnew
    refine ⟨t', hmoved.trans hmoved', hleaves.trans hleaves', fun hpos => ?_⟩
    obtain ⟨x, hopens, hfresh⟩ := hfresh hpos
    exact ⟨x, hleaves.opens hopens, fun m hm => hmoved.keeps.not_below hfresh hm⟩
  have hrename : ∀ {s₁ s₂ err}, bkpLid > 0 → (view s).Leaves (some t) (view s₁) →
      h5.renameGrp lid group bkpLid bkpgroup s₁ = some (err, s₂) →
      ∃ t₂, Rearranged t t₂ c ∧ (view s).Leaves (some t₂) (view s₂) := by
    intro s₁ s₂ err hpos hleaves hrename
    obtain ⟨slash', hne, d, hd, hbkp⟩ := hbkp hpos
    obtain ⟨t₂, hmoved, hleaves₂⟩ := laws.renameGrp slash slash' hne apart hc hd
      (hat.leaves hleaves) ⟨hleaves.file, hleaves.group hbkp⟩ hrename
    exact ⟨t₂, hmoved, hleaves.trans hleaves₂⟩
  cases laws.crtGrp slash hat h with
  | failed hleaves => exact ⟨t, hsame, hleaves, fun h => absurd h (by decide)⟩
  | there _ _ hleaves => exact ⟨t, hsame, hleaves, fun h => absurd h (by decide)⟩
  | new _ hleaves hcreate => exact hnew hsame hleaves hcreate
  | notRenamed hpos hleaves hren =>
    obtain ⟨t₂, hmoved, hleaves₂⟩ := hrename hpos hleaves hren
    exact ⟨t₂, hmoved, hleaves₂, fun h => absurd h (by decide)⟩
  | renamed hpos hleaves hren hcreate =>
    obtain ⟨t₂, hmoved, hleaves₂⟩ := hrename hpos hleaves hren
    exact hnew hmoved hleaves₂ hcreate

end H5.GroupLaws

/-- The file is not found, and is created. -/
def H5.Recreates (h5 : H5 σ) (filename : CStr) (s : σ) : Prop :=
  (h5.access filename s).1 = false ∧ (h5.fcreate filename (h5.access filename s).2).1.val > 0

/-- What comes of opening the file, if it is not to be overwritten. -/
inductive OpenFile (h5 : H5 σ) (view : σ → GroupView ι γ) (filename : CStr) (s : σ) :
    Option ℤ → σ → Prop
  | failed {s' : σ} : ¬ h5.Recreates filename s → (view s).Stays (view s') →
      OpenFile h5 view filename s none s'
  | found {fid : ℤ} {t : LinkTree ι CStr γ} {s' : σ} : ¬ h5.Recreates filename s →
      (view s).file = some t → (view s).Opens (some t) fid t.root (view s') →
      OpenFile h5 view filename s (some fid) s'
  | created {fid : ℤ} {t : LinkTree ι CStr γ} {s' : σ} : h5.Recreates filename s →
      (∀ p n, t.link p n = none) → (view s).Opens (some t) fid t.root (view s') →
      OpenFile h5 view filename s (some fid) s'

namespace H5.GroupLaws

theorem openFile (laws : h5.GroupLaws filename view) (file : creq.filename = some filename)
    (mode : creq.ovrwtmode.toNat ≠ TES_H5_OVRWT_FILE) {opened : Option ℤ}
    (h : h5.openFile creq s = some (opened, s')) : OpenFile h5 view filename s opened s' := by
  unfold H5.openFile at h
  simp only [file, Option.getD_some, mode, and_false, if_false, not_false_iff, and_true] at h
  obtain ⟨fok, s₁, haccess, h⟩ := bind_eq_some.1 h
  obtain ⟨_, _, hpure, h⟩ := bind_eq_some.1 h
  cases hpure
  rw [if_neg (show ¬ true = false by decide)] at h
  obtain ⟨fid, s₂, hopen, hend⟩ := bind_eq_some.1 h
  have hstays := laws.access s
  have haccess := Option.some.inj haccess
  have hrecreates : h5.Recreates filename s ↔
      fok = false ∧ (h5.fcreate filename s₁).1.val > 0 := by rw [H5.Recreates, haccess]
  rw [haccess] at hstays
  cases fok with
  | true =>
    have hnot : ¬ h5.Recreates filename s := by simp [hrecreates]
    obtain ⟨hfails, hopens⟩ := laws.fopen (Option.some.inj hopen)
    split_ifs at hend with hneg
    · cases hend
      exact .failed hnot (hstays.stays (hfails hneg))
    · cases hend
      obtain ⟨t, ht, hopens⟩ := hopens ((hid_pos_iff fid).2 hneg)
      exact .found hnot (ht.symm.trans hstays.file).symm (hstays.opens hopens)
  | false =>
    have hcreate := Option.some.inj hopen
    rw [hcreate] at hrecreates
    obtain ⟨hfails, hopens⟩ := laws.fcreate hcreate
    split_ifs at hend with hneg
    · cases hend
      refine .failed ?_ (hstays.stays (hfails hneg))
      rw [hrecreates, hid_pos_iff]
      exact fun hpos => hpos.2 hneg
    · cases hend
      have hpos := (hid_pos_iff fid).2 hneg
      obtain ⟨t, hempty, hopens⟩ := hopens hpos
      exact .created (hrecreates.2 ⟨rfl, hpos⟩) hempty (hstays.opens hopens)

end H5.GroupLaws

/-! ## The reference -/

/-- The tree of groups in a file, with the datasets in them. -/
def Store.tree (f : Store) : LinkTree ℕ CStr (CStr → Option (List UInt8)) where
  root := 0
  link p n := f.links.lookup (p, n)
  contents o n := f.sets.lookup (o, n)

theorem Store.lt_fresh {f : Store} {p q : ℕ} {n : CStr} (h : f.tree.link p n = some q) :
    p < f.fresh ∧ q < f.fresh := by
  obtain ⟨l₁, l₂, hlinks, -⟩ := List.lookup_eq_some_iff.1 h
  have hmem : ((p, n), q) ∈ f.links := by rw [hlinks]; simp
  constructor <;>
    exact lt_above (List.mem_cons_of_mem _ (List.mem_append_left _
      (List.mem_flatMap.2 ⟨_, hmem, by simp⟩)))

theorem Store.fresh_tree (f : Store) : f.tree.Fresh f.fresh where
  root := by
    have hlt : 0 < f.fresh := lt_above (List.mem_cons_self ..)
    exact hlt.ne'
  unlinked p n h := lt_irrefl _ (Store.lt_fresh h).2
  empty n := by
    rcases h : f.tree.link f.fresh n with _ | q
    · rfl
    · exact absurd (Store.lt_fresh h).1 (lt_irrefl _)

theorem Store.isTree {f : Store} (hroot : 0 ∉ f.links.map Prod.snd)
    (honce : (f.links.map Prod.snd).Nodup) : f.tree.IsTree := by
  have hmem : ∀ {p n q}, f.tree.link p n = some q → ((p, n), q) ∈ f.links := by
    intro p n q h
    obtain ⟨l₁, l₂, hlinks, -⟩ := List.lookup_eq_some_iff.1 h
    rw [hlinks]
    exact List.mem_append_right _ List.mem_cons_self
  constructor
  · exact fun p n h => hroot (List.mem_map_of_mem (hmem h))
  · intro p q o n k hp hq
    have heq := List.inj_on_of_nodup_map honce (hmem hp) (hmem hq) rfl
    exact Prod.mk.inj (Prod.mk.inj heq).1

/-- A link is put before the others. -/
theorem Store.relinks_cons (f : Store) (p q : ℕ) (n : CStr) :
    f.tree.Relinks p n (some q) { f with links := ((p, n), q) :: f.links }.tree where
  root := rfl
  link := List.lookup_cons_self
  links {q' k} h := by
    have hne : (q', k) ≠ (p, n) := fun heq => h (Prod.mk.inj heq).1 (Prod.mk.inj heq).2
    simp only [Store.tree, List.lookup_cons, beq_eq_false_iff_ne.2 hne]
  contents _ := rfl

theorem Store.relinks_dropKey (f : Store) (p : ℕ) (n : CStr) :
    f.tree.Relinks p n none { f with links := dropKey (p, n) f.links }.tree where
  root := rfl
  link := by
    refine List.lookup_eq_none_iff.2 fun l hl => ?_
    have hne := of_decide_eq_true (List.mem_filter.1 hl).2
    exact bne_iff_ne.2 (Ne.symm hne)
  links {q k} h :=
    lookup_dropKey_of_ne (fun heq => h (Prod.mk.inj heq).1 (Prod.mk.inj heq).2) f.links
  contents _ := rfl

/-- A dataset is changed, which is the first one then. -/
theorem Store.fills (f : Store) {o : ℕ} {name : CStr} {b : List UInt8}
    {sets : List ((ℕ × CStr) × List UInt8)}
    (h : ∀ k : ℕ × CStr, k ≠ (o, name) → sets.lookup k = f.sets.lookup k) :
    f.tree.Fills o { f with sets := ((o, name), b) :: sets }.tree where
  root := rfl
  link := rfl
  contents {q} hq := by
    funext m
    have hne : (q, m) ≠ (o, name) := fun heq => hq (Prod.mk.inj heq).1
    simp only [Store.tree, List.lookup_cons, beq_eq_false_iff_ne.2 hne]
    exact h _ hne

namespace World

variable {w w' : World} {f : Store}

/-- What is seen of the groups in the reference. -/
def groupView (w : World) : GroupView ℕ (CStr → Option (List UInt8)) where
  file := w.file.map Store.tree
  group gid := w.groups.lookup gid
  dset dset := (w.dsets.lookup dset).bind fun d => w.groups.lookup d.1

/-- What does not change the file and the identifiers. -/
theorem stays_of_eq (hfile : w'.file = w.file) (hgroups : w'.groups = w.groups) :
    w.groupView.Stays w'.groupView := by
  constructor
  · simp only [groupView, hfile]
  · simp only [groupView, hgroups]
    exact id

theorem opens_opened (w : World) (f : Store) (o : ℕ) :
    w.groupView.Opens (some f.tree) (freshId w.groups).val o (w.opened f o).2.groupView where
  file := rfl
  fresh := lookup_freshId w.groups
  opened := List.lookup_cons_self
  group {gid x} h := by
    have hne : gid ≠ (freshId w.groups).val := by
      rintro rfl
      cases (lookup_freshId w.groups).symm.trans h
    simp only [groupView, opened, List.lookup_cons, beq_eq_false_iff_ne.2 hne]
    exact h

theorem closes_gclose (w : World) (gid : ℤ) : w.groupView.Closes gid (w.gclose gid).groupView where
  file := rfl
  group h hx := (lookup_dropKey_of_ne h w.groups).trans hx

/-- The object of an identifier, in the file that is seen. -/
theorem exists_groupOf {gid : ℤ} {o : ℕ} {t : LinkTree ℕ CStr (CStr → Option (List UInt8))}
    (hfile : w.groupView.file = some t) (ho : w.groupView.group gid = some o) :
    ∃ f, w.file = some f ∧ f.tree = t ∧ w.groupOf gid = some (f, o) := by
  obtain ⟨f, hf, rfl⟩ := Option.map_eq_some_iff.1 hfile
  exact ⟨f, hf, rfl, groupOf_eq_some.2 ⟨hf, ho⟩⟩

variable (disk : List (CStr × List UInt8))

theorem mapSteps_stays :
    (calls disk).MapSteps fun w w' => w.groupView.Stays w'.groupView where
  refl w := .refl _
  trans _ _ _ h h' := h.stays h'
  openFd f w := by
    simp only [calls, openFd]
    split
    · exact stays_of_eq rfl rfl
    · exact .refl _
  lseekEnd _ w := .refl _
  closeFd _ w := stays_of_eq rfl rfl
  mmap _ fd w := by
    simp only [calls, mmap]
    split
    · exact stays_of_eq rfl rfl
    · exact .refl _

theorem groupLaws (filename : CStr) : (calls disk).GroupLaws filename groupView where
  access w := .refl _
  fopen {w fid w'} h := by
    simp only [calls, fopen] at h
    split at h
    next f hfile =>
      cases h
      refine ⟨fun hneg => absurd hneg (by simp only [freshId]; omega), fun _ => ?_⟩
      exact ⟨f.tree, by simp [groupView, hfile], w.opens_opened f 0⟩
    · cases h
      exact ⟨fun _ => .refl _, fun h => absurd h (by decide)⟩
  fcreate {w fid w'} h := by
    cases h
    refine ⟨fun hneg => absurd hneg (by simp only [freshId]; omega), fun _ => ?_⟩
    exact ⟨Store.tree ⟨[], []⟩, fun _ _ => rfl, w.opens_opened ⟨[], []⟩ 0⟩
  lexists {lid group w r w' t o} _ hfile ho h := by
    obtain ⟨f, hf, rfl, hgroup⟩ := exists_groupOf hfile ho
    simp only [calls, lexists, hgroup] at h
    cases h
    refine ⟨.refl _, ?_, ?_⟩ <;> split_ifs with hsome
    · exact fun h => absurd h (by decide)
    · exact fun _ => Option.not_isSome_iff_eq_none.1 hsome
    · exact fun _ hnone => by
        rw [show f.links.lookup (o, group) = none from hnone] at hsome
        cases hsome
    · exact fun h => absurd h (by decide)
  gopen {lid group w gid w' t o x} _ hfile ho hx h := by
    obtain ⟨f, hf, rfl, hgroup⟩ := exists_groupOf hfile ho
    have hx : f.links.lookup (o, group) = some x := hx
    simp only [calls, gopen, hgroup, hx] at h
    cases h
    refine ⟨fun hneg => absurd hneg (by simp only [freshId]; omega), fun _ => ?_⟩
    exact w.opens_opened f x
  gcreate {lid group w gid w' t o} _ hfile ho h := by
    obtain ⟨f, hf, rfl, hgroup⟩ := exists_groupOf hfile ho
    simp only [calls, gcreate, hgroup] at h
    split_ifs at h with habsent
    · cases h
      refine ⟨fun hneg => absurd hneg (by simp only [freshId]; omega), fun _ => ?_⟩
      exact ⟨f.fresh, _, habsent, f.fresh_tree, f.relinks_cons o f.fresh group,
        w.opens_opened _ f.fresh⟩
    · cases h
      exact ⟨fun _ => .refl _, fun h => absurd h (by decide)⟩
  lcopy {lid group dst dstgroup w r w' t o d} _ _ hfile ho hd h := by
    obtain ⟨f, hf, rfl, hgroup⟩ := exists_groupOf hfile ho
    obtain ⟨f', hf', -, hgroup'⟩ := exists_groupOf hfile hd
    cases hf.symm.trans hf'
    simp only [calls, lcopy, hgroup, hgroup'] at h
    split at h
    next x hx habsent =>
      cases h
      refine ⟨fun hneg => absurd hneg (by decide), fun _ => ?_⟩
      exact ⟨x, _, hx, habsent, f.relinks_cons d x dstgroup, rfl, id⟩
    · cases h
      exact ⟨fun _ => .refl _, fun h => absurd h (by decide)⟩
  ldelete {lid group w r w' t o} _ hfile ho h := by
    obtain ⟨f, hf, rfl, hgroup⟩ := exists_groupOf hfile ho
    simp only [calls, ldelete, hgroup] at h
    split_ifs at h with hsome
    · cases h
      refine ⟨fun hneg => absurd hneg (by decide), fun _ => ?_⟩
      exact ⟨_, f.relinks_dropKey o group, rfl, id⟩
    · cases h
      exact ⟨fun _ => .refl _, fun h => absurd h (by decide)⟩
  gclose gid w := w.closes_gclose gid
  fclose fid w := w.closes_gclose fid
  maps := mapSteps_stays disk
  time w := .refl _
  screate _ w := stays_of_eq rfl rfl
  sclose _ w := stays_of_eq rfl rfl
  dclose _ w := stays_of_eq rfl rfl
  munmap _ _ w := .refl _
  dcreate {gid name dspace w dset w'} h := by
    simp only [calls, dcreate] at h
    split at h
    next f o n hgroup hspace =>
      split_ifs at h with habsent
      · obtain ⟨hf, hlookup⟩ := groupOf_eq_some.1 hgroup
        cases h
        refine ⟨fun hneg => absurd hneg (by simp only [freshId]; omega), fun _ => ⟨habsent.1, ?_⟩⟩
        intro t o' hfile ho
        obtain ⟨f', hf', rfl⟩ := Option.map_eq_some_iff.1 hfile
        cases hf.symm.trans hf'
        cases hlookup.symm.trans ho
        refine ⟨_, f.fills fun _ _ => rfl, ⟨rfl, id⟩, ?_⟩
        simp only [groupView, List.lookup_cons_self, Option.bind_some]
        exact hlookup
      · cases h
        exact ⟨fun _ => .refl _, fun h => absurd h (by decide)⟩
    · cases h
      exact ⟨fun _ => .refl _, fun h => absurd h (by decide)⟩
  dwrite {dset addr w r w' t o} hfile ho h := by
    obtain ⟨⟨gid, name, n⟩, hdset, ho⟩ := Option.bind_eq_some_iff.1 ho
    obtain ⟨f, hf, rfl, hgroup⟩ := exists_groupOf hfile ho
    simp only [calls, dwrite, hdset, hgroup] at h
    cases h
    exact ⟨_, f.fills fun k hk => lookup_dropKey_of_ne hk f.sets, rfl, id⟩
  fork _ w := ⟨w, .notRun, .refl _⟩

/-- There is the measurement group of the requests, with a dataset. -/
def holding : World :=
  { start with
    file := some ⟨[((1, "m".toList), 2), ((0, ROOT_GROUP), 1)], [((2, "f".toList), [7])]⟩ }

end World

end Tesd
