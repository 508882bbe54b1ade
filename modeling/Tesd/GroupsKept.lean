import Tesd.ForkAndRun
import Tesd.Groups
import Tesd.Lib.Runs

/-!
# Measurement groups are kept

Conversions that are not to overwrite the hdf5 file leave every measurement group in it, or in the
group for what is overwritten, with its contents; but if the file is not found by `access`, it is
created over the old one.
-/

namespace Tesd

open Asserting

variable {σ ι γ : Type} {h5 : H5 σ} {view : σ → GroupView ι γ} {creq : ConvReq}
  {data data' : CreqData} {filename group bkpgroup : CStr} {rc : CapStatus} {lid gid fid : ℤ}
  {s s' s₁ s₂ : σ} {t t' : LinkTree ι CStr γ} {ddesc : DsetDesc} {ddescs : List DsetDesc}
  {c d o x : ι}

/-! ## What is kept -/

/-- The file is created anew only if there is no measurement group in it. -/
def H5.Finds (h5 : H5 σ) (filename : CStr) (view : σ → GroupView ι γ) (s : σ) : Prop :=
  h5.Recreates filename s → ∀ t, (view s).file = some t → ∀ m, ¬ t.Member collections m

namespace GroupView

variable {v v' v'' : GroupView ι γ}

/-- Neither the root of the file nor one of the groups for measurement groups is linked anywhere
else. -/
def Sound (v : GroupView ι γ) : Prop := ∀ t, v.file = some t → t.Apart collections

/-- All measurement groups are still in the file, and are as they were. -/
def Kept (v v' : GroupView ι γ) : Prop :=
  ∀ t, v.file = some t → ∃ t', v'.file = some t' ∧ LinkTree.Keeps collections t t'

theorem kept_of_file (h : v'.file = v.file) : v.Kept v' :=
  fun t ht => ⟨t, h.trans ht, .refl t⟩

theorem Kept.trans (h : v.Kept v') (h' : v'.Kept v'') : v.Kept v'' := by
  intro t ht
  obtain ⟨t', ht', hkeeps⟩ := h t ht
  obtain ⟨t'', ht'', hkeeps'⟩ := h' t' ht'
  exact ⟨t'', ht'', hkeeps.trans hkeeps'⟩

/-- The view has this tree, in which all measurement groups are kept. -/
structure Carries (v : GroupView ι γ) (t : LinkTree ι CStr γ) (v' : GroupView ι γ) : Prop where
  file : v'.file = some t
  apart : t.Apart collections
  keeps : ∀ t₀, v.file = some t₀ → LinkTree.Keeps collections t₀ t

theorem Carries.sound (h : v.Carries t v') : v'.Sound := by
  intro t' ht'
  cases h.file.symm.trans ht'
  exact h.apart

theorem Carries.kept (h : v.Carries t v') : v.Kept v' := fun t₀ ht₀ => ⟨t, h.file, h.keeps t₀ ht₀⟩

theorem Carries.and_of {p : Prop} (h : v.Carries t v') (hp : p) : v'.Sound ∧ v.Kept v' ∧ p :=
  ⟨h.sound, h.kept, hp⟩

theorem Carries.leaves (h : v.Carries t v') (h' : v'.Leaves (some t') v'')
    (apart : t'.Apart collections) (keeps : LinkTree.Keeps collections t t') : v.Carries t' v'' :=
  ⟨h'.file, apart, fun t₀ ht₀ => (h.keeps t₀ ht₀).trans keeps⟩

theorem Carries.of_file (h : v.Carries t v') (h' : v''.file = v'.file) : v.Carries t v'' :=
  ⟨h'.trans h.file, h.apart, h.keeps⟩

end GroupView

/-! ## The initialization -/

/-- A file that is opened, or created where nothing is lost. -/
theorem OpenFile.carries (h : OpenFile h5 view filename s (some fid) s') (sound : (view s).Sound)
    (finds : h5.Finds filename view s) :
    ∃ t, (view s).Carries t (view s') ∧ (view s').group fid = some t.root := by
  cases h with
  | found _ hfile hopens =>
    refine ⟨_, ⟨hopens.file, sound _ hfile, fun t₀ ht₀ => ?_⟩, hopens.opened⟩
    cases hfile.symm.trans ht₀
    exact .refl _
  | created hcreates hempty hopens =>
    refine ⟨_, ⟨hopens.file, LinkTree.apart_of_link hempty, fun t₀ ht₀ m hm => ?_⟩, hopens.opened⟩
    exact absurd hm (finds hcreates t₀ ht₀ m)

/-- One of the groups for measurement groups is opened or created. -/
theorem GetsGrp.keeps {v v' : GroupView ι γ} {k : CStr} {create : Bool}
    (h : GetsGrp t t.root k create v gid v') (apart : t.Apart collections) :
    ∃ t', v.Leaves (some t') v' ∧ t'.Apart collections ∧ LinkTree.Keeps collections t t' ∧
      t'.root = t.root ∧ (∀ {n o}, t.link t.root n = some o → t'.link t'.root n = some o) ∧
      (gid > 0 → ∃ c, t'.link t'.root k = some c ∧ v'.group gid = some c) := by
  cases h with
  | failed hleaves => exact ⟨t, hleaves, apart, .refl t, rfl, id, fun h => absurd h (by decide)⟩
  | absent _ _ hleaves => exact ⟨t, hleaves, apart, .refl t, rfl, id, fun h => absurd h (by decide)⟩
  | found _ hx hopens =>
    exact ⟨t, hopens.toLeaves, apart, .refl t, rfl, id, fun _ => ⟨_, hx, hopens.opened⟩⟩
  | created _ _ habsent hfresh hlinks hopens =>
    refine ⟨_, hopens.toLeaves, hlinks.apart apart habsent (.inl hfresh),
      hlinks.keeps apart (.inl rfl) habsent, hlinks.root, fun hlink => ?_, fun _ => ⟨_, ?_,
      hopens.opened⟩⟩
    · rw [hlinks.root]
      exact hlinks.link_of_some habsent hlink
    · rw [hlinks.root]
      exact hlinks.link

/-- The name of a group that is overwritten is another one, and has no slash either. -/
theorem slash_bkpgroup (slash : '/' ∉ group) (n : ℕ) :
    '/' ∉ group ++ '_' :: Nat.toDigits 10 n ∧ group ++ '_' :: Nat.toDigits 10 n ≠ group := by
  constructor
  · rw [List.mem_append, List.mem_cons]
    rintro (h | h | h)
    · exact slash h
    · exact absurd h (by decide)
    · exact absurd (Nat.isDigit_of_mem_toDigits (by decide) (by decide) h) (by decide)
  · intro h
    exact absurd (congrArg List.length h) (by simp)

namespace H5.GroupLaws

/-- The group for what is overwritten, if it is opened, is there, and the name in it is a new one. -/
theorem ovrwtGrp (laws : h5.GroupLaws filename view) (slash : '/' ∉ creq.group.getD [])
    (apart : t.Apart collections) (hat : (view s).At t fid t.root)
    (hc : t.link t.root ROOT_GROUP = some c) {ovrwtGid : ℤ} {named : Option CStr}
    (h : h5.ovrwtGrp creq fid s = some ((ovrwtGid, named), s')) :
    ∃ t', (view s).Leaves (some t') (view s') ∧ t'.Apart collections ∧
      LinkTree.Keeps collections t t' ∧ t'.link t'.root ROOT_GROUP = some c ∧
      ∀ bkpgroup, named = some bkpgroup → ovrwtGid > 0 →
        '/' ∉ bkpgroup ∧ bkpgroup ≠ creq.group.getD [] ∧
        ∃ d, t'.link t'.root OVRWT_GROUP = some d ∧ (view s').group ovrwtGid = some d := by
  unfold H5.ovrwtGrp at h
  by_cases hmode : creq.ovrwtmode.toNat = TES_H5_OVRWT_RELINK
  · rw [if_pos hmode] at h
    obtain ⟨gid, s₁, hget, h⟩ := bind_eq_some.1 h
    obtain ⟨t', hleaves, hapart, hkeeps, -, hlinks, hopened⟩ :=
      (laws.getsGrp (by decide) hat hget).keeps apart
    by_cases hneg : gid < 0
    · rw [if_pos hneg] at h
      cases h
      exact ⟨t', hleaves, hapart, hkeeps, hlinks hc, fun _ h => by cases h⟩
    rw [if_neg hneg, check_bind_eq_some] at h
    obtain ⟨hpos, h⟩ := h
    obtain ⟨tnow, s₂, htime, h⟩ := bind_eq_some.1 h
    have hstays := laws.time s₁
    rw [Option.some.inj htime] at hstays
    have hleaves₂ := hleaves.stays hstays
    cases tnow with
    | none =>
      cases h
      exact ⟨t', hleaves₂, hapart, hkeeps, hlinks hc, fun _ h => by cases h⟩
    | some tnow =>
      dsimp only at h
      split_ifs at h
      · cases h
        exact ⟨t', hleaves₂, hapart, hkeeps, hlinks hc, fun _ h => by cases h⟩
      · cases h
        refine ⟨t', hleaves₂, hapart, hkeeps, hlinks hc, ?_⟩
        rintro _ ⟨⟩ -
        obtain ⟨hslash, hne⟩ := slash_bkpgroup slash tnow
        obtain ⟨d, hd, hgid⟩ := hopened hpos
        exact ⟨hslash, hne, d, hd, hstays.group hgid⟩
  · rw [if_neg hmode] at h
    cases h
    exact ⟨t, hat.stays (.refl _), apart, .refl t, hc, fun _ _ h => absurd h (by decide)⟩

/-- The groups that are open besides the client's are closed. -/
theorem closeGroups (laws : h5.GroupLaws filename view) {rootGid ovrwtGid clientGid : ℤ}
    (hopens : (view s).Opens (some t) clientGid x (view s')) (hroot : (view s).group rootGid = some c)
    (hovrwt : ovrwtGid > 0 → ∃ d, (view s).group ovrwtGid = some d) :
    (view (h5.closeGroups rootGid ovrwtGid s')).At t clientGid x := by
  have hne : ∀ {gid o}, (view s).group gid = some o → clientGid ≠ gid := by
    rintro gid o ho rfl
    cases hopens.fresh.symm.trans ho
  have hclose := laws.gclose rootGid s'
  have hat : (view (h5.gclose rootGid s')).At t clientGid x :=
    ⟨hclose.file.trans hopens.file, hclose.group (hne hroot) hopens.opened⟩
  unfold H5.closeGroups
  split_ifs with hpos
  · obtain ⟨d, hd⟩ := hovrwt hpos
    have hclose' := laws.gclose ovrwtGid (h5.gclose rootGid s')
    exact ⟨hclose'.file.trans hat.file, hclose'.group (hne hd) hat.group⟩
  · exact hat

theorem closeGroups_file (laws : h5.GroupLaws filename view) (rootGid ovrwtGid : ℤ) (s : σ) :
    (view (h5.closeGroups rootGid ovrwtGid s)).file = (view s).file := by
  unfold H5.closeGroups
  split_ifs
  · rw [(laws.gclose _ _).file, (laws.gclose _ _).file]
  · exact (laws.gclose _ _).file

section Parts

variable {rootGid ovrwtGid clientGid : ℤ} {s₃ s₄ : σ}

theorem carries_root (laws : h5.GroupLaws filename view) (sound : (view s).Sound)
    (finds : h5.Finds filename view s) (file : creq.filename = some filename)
    (mode : creq.ovrwtmode.toNat ≠ TES_H5_OVRWT_FILE)
    (hopen : h5.openFile creq s = some (some fid, s₁))
    (hroot : h5.getGrp fid ROOT_GROUP true s₁ = some (rootGid, s₂)) :
    ∃ t, (view s).Carries t (view s₂) ∧ (view s₂).group fid = some t.root ∧
      (rootGid > 0 → ∃ c, t.link t.root ROOT_GROUP = some c ∧
        (view s₂).group rootGid = some c) := by
  obtain ⟨t, hcarries, hfid⟩ := (laws.openFile file mode hopen).carries sound finds
  obtain ⟨t', hleaves, hapart, hkeeps, hsame, -, hopened⟩ :=
    (laws.getsGrp (by decide) ⟨hcarries.file, hfid⟩ hroot).keeps hcarries.apart
  exact ⟨t', hcarries.leaves hleaves hapart hkeeps, by rw [hleaves.group hfid, hsame], hopened⟩

theorem carries_client (laws : h5.GroupLaws filename view) (sound : (view s).Sound)
    (finds : h5.Finds filename view s) (file : creq.filename = some filename)
    (mode : creq.ovrwtmode.toNat ≠ TES_H5_OVRWT_FILE) (slash : '/' ∉ creq.group.getD [])
    (hopen : h5.openFile creq s = some (some fid, s₁))
    (hroot : h5.getGrp fid ROOT_GROUP true s₁ = some (rootGid, s₂)) (hpos : rootGid > 0)
    (hovrwt : h5.ovrwtGrp creq fid s₂ = some ((ovrwtGid, some bkpgroup), s₃))
    (hclient : h5.crtGrp rootGid (creq.group.getD []) ovrwtGid bkpgroup s₃ =
      some (clientGid, s₄)) :
    ∃ t, (view s).Carries t (view s₄) ∧ (clientGid > 0 → ∃ x,
      (view (h5.closeGroups rootGid ovrwtGid s₄)).At t clientGid x ∧
        ∀ t₀, (view s).file = some t₀ → NoMember t₀ x) := by
  obtain ⟨t, hcarries, hfid, hopened⟩ := laws.carries_root sound finds file mode hopen hroot
  obtain ⟨c, hc, hrootGid⟩ := hopened hpos
  obtain ⟨t₁, hleaves, hapart, hkeeps, hc₁, hnamed⟩ :=
    laws.ovrwtGrp slash hcarries.apart ⟨hcarries.file, hfid⟩ hc hovrwt
  have hcarries₁ := hcarries.leaves hleaves hapart hkeeps
  have hrootGid₁ := hleaves.group hrootGid
  obtain ⟨t₂, hmoved, hleaves₂, hnew⟩ := laws.crtGrp_moved slash hapart hc₁
    ⟨hcarries₁.file, hrootGid₁⟩ (hnamed bkpgroup rfl) hclient
  refine ⟨t₂, hcarries₁.leaves hleaves₂ hmoved.apart hmoved.keeps, fun hcpos => ?_⟩
  obtain ⟨x, hopens, hno⟩ := hnew hcpos
  refine ⟨x, laws.closeGroups hopens hrootGid₁ fun h => ?_, fun t₀ ht₀ m hm hbelow => ?_⟩
  · obtain ⟨-, -, d, -, hd⟩ := hnamed bkpgroup rfl h
    exact ⟨d, hd⟩
  · obtain ⟨hm', hsame⟩ := hcarries₁.keeps t₀ ht₀ m hm
    exact hno m hm' (hsame.below hbelow)

end Parts

/-- What the initialization leaves: all measurement groups are kept, and the client's group, if it is
open, is a new one. -/
theorem carries_init (laws : h5.GroupLaws filename view) (sound : (view s).Sound)
    (finds : h5.Finds filename view s) (file : data.creq.filename = some filename)
    (mode : data.creq.ovrwtmode.toNat ≠ TES_H5_OVRWT_FILE) (slash : '/' ∉ data.creq.group.getD [])
    (h : h5.hdf5Init data s = some ((rc, data'), s')) :
    (view s').Sound ∧ (view s).Kept (view s') ∧ (data'.groupId = data.groupId ∨
      ∃ t x, (view s).Carries t (view s') ∧ (view s').group data'.groupId = some x ∧
        ∀ t₀, (view s).file = some t₀ → NoMember t₀ x) := by
  cases initEnds_of_hdf5Init h with
  | notOpened hopen =>
    cases laws.openFile file mode hopen with
    | failed _ hstays =>
      refine ⟨?_, GroupView.kept_of_file hstays.file, .inl rfl⟩
      rw [GroupView.Sound, hstays.file]
      exact sound
  | noRoot hopen hroot =>
    obtain ⟨t, hcarries, -⟩ := laws.carries_root sound finds file mode hopen hroot
    refine GroupView.Carries.and_of (hcarries.of_file ?_) (.inl rfl)
    exact (laws.fclose _ _).file
  | noName hopen hroot hpos hovrwt =>
    obtain ⟨t, hcarries, hfid, hopened⟩ := laws.carries_root sound finds file mode hopen hroot
    obtain ⟨c, hc, -⟩ := hopened hpos
    obtain ⟨t₁, hleaves, hapart, hkeeps, -⟩ :=
      laws.ovrwtGrp slash hcarries.apart ⟨hcarries.file, hfid⟩ hc hovrwt
    have hcarries₁ := hcarries.leaves hleaves hapart hkeeps
    refine GroupView.Carries.and_of (hcarries₁.of_file ?_) (.inl rfl)
    rw [(laws.fclose _ _).file, laws.closeGroups_file]
  | noGroup hopen hroot hpos hovrwt hclient =>
    obtain ⟨t, hcarries, -⟩ :=
      laws.carries_client sound finds file mode slash hopen hroot hpos hovrwt hclient
    refine GroupView.Carries.and_of (hcarries.of_file ?_) (.inl rfl)
    rw [(laws.fclose _ _).file, laws.closeGroups_file]
  | notMapped hopen hroot hpos hovrwt hclient _ hmap =>
    obtain ⟨t, hcarries, -⟩ :=
      laws.carries_client sound finds file mode slash hopen hroot hpos hovrwt hclient
    have hmapped := laws.maps.within_mapFiles _ _ _ _ hmap
    refine GroupView.Carries.and_of (hcarries.of_file ?_) (.inl rfl)
    rw [(laws.fclose _ _).file, (laws.gclose _ _).file, hmapped.file, laws.closeGroups_file]
  | done hopen hroot hpos hovrwt hclient hcpos hmap =>
    obtain ⟨t, hcarries, hnew⟩ :=
      laws.carries_client sound finds file mode slash hopen hroot hpos hovrwt hclient
    obtain ⟨x, hat, hno⟩ := hnew hcpos
    have hmapped := laws.maps.within_mapFiles _ _ _ _ hmap
    have hcarries' := hcarries.of_file (hmapped.file.trans (laws.closeGroups_file _ _ _))
    exact hcarries'.and_of (.inr ⟨t, x, hcarries', hmapped.group hat.group, hno⟩)

/-! ## Writing -/

/-- A dataset is added to the group only. -/
theorem fills_createDset (laws : h5.GroupLaws filename view) (hat : (view s).At t gid x)
    (h : h5.createDset ddesc gid s = some (rc, s')) :
    ∃ t', t.Fills x t' ∧ (view s').At t' gid x := by
  unfold H5.createDset at h
  rw [check_bind_eq_some, check_bind_eq_some] at h
  obtain ⟨-, -, h⟩ := h
  obtain ⟨dspace, s₁, hspace, h⟩ := bind_eq_some.1 h
  have hstays := laws.screate ddesc.length s
  rw [Option.some.inj hspace] at hstays
  have hat₁ := hat.leaves (hat.stays hstays)
  by_cases hneg : dspace.val < 0
  · rw [if_pos hneg] at h
    cases h
    exact ⟨t, .refl t x, hat₁⟩
  rw [if_neg hneg] at h
  obtain ⟨dset, s₂, hdset, h⟩ := bind_eq_some.1 h
  obtain ⟨hfails, hcreates⟩ := laws.dcreate (Option.some.inj hdset)
  by_cases hneg' : dset.val < 0
  · rw [if_pos hneg'] at h
    cases h
    have hat₂ := hat₁.leaves (hat₁.stays (hfails hneg'))
    exact ⟨t, .refl t x, hat₂.leaves (hat₂.stays (laws.sclose dspace s₂))⟩
  rw [if_neg hneg'] at h
  obtain ⟨t₁, hfills, hleaves, hdset₂⟩ :=
    (hcreates ((hid_pos_iff dset).2 hneg')).2 hat₁.file hat₁.group
  have hat₂ := hat₁.leaves hleaves
  have hcloses : ∀ {t₂ s₃}, (view s₃).At t₂ gid x →
      (view (h5.sclose dspace (h5.dclose dset s₃))).At t₂ gid x := by
    intro t₂ s₃ hat₃
    have hat₄ := hat₃.leaves (hat₃.stays (laws.dclose dset s₃))
    exact hat₄.leaves (hat₄.stays (laws.sclose dspace _))
  by_cases hzero : ddesc.length = 0
  · rw [if_pos hzero] at h
    cases h
    exact ⟨t₁, hfills, hcloses hat₂⟩
  · rw [if_neg hzero, check_bind_eq_some, check_bind_eq_some] at h
    obtain ⟨-, -, h⟩ := h
    obtain ⟨err, s₃, hwrite, h⟩ := bind_eq_some.1 h
    obtain ⟨t₂, hfills₂, hleaves₂⟩ := laws.dwrite hat₂.file hdset₂ (Option.some.inj hwrite)
    cases h
    exact ⟨t₂, hfills.trans hfills₂, hcloses (hat₂.leaves hleaves₂)⟩

theorem fills_writeDsets (laws : h5.GroupLaws filename view) (hat : (view s).At t gid x)
    (h : h5.writeDsets gid ddescs s = some ((), s')) :
    ∃ t', t.Fills x t' ∧ (view s').At t' gid x := by
  induction ddescs generalizing t s with
  | nil =>
    cases h
    exact ⟨t, .refl t x, hat⟩
  | cons ddesc ddescs ih =>
    obtain ⟨rc, s₁, hfirst, h⟩ := bind_eq_some.1 h
    obtain ⟨t₁, hfills, hat₁⟩ := laws.fills_createDset hat hfirst
    split_ifs at h with hrc
    · cases h
      exact ⟨t₁, hfills, hat₁⟩
    · obtain ⟨t₂, hfills₂, hat₂⟩ := ih hat₁ h
      exact ⟨t₂, hfills.trans hfills₂, hat₂⟩

/-- Nothing is written where there is no group. -/
theorem stays_createDset (laws : h5.GroupLaws filename view) (hgid : gid ≤ 0)
    (h : h5.createDset ddesc gid s = some (rc, s')) : (view s).Stays (view s') := by
  unfold H5.createDset at h
  rw [check_bind_eq_some, check_bind_eq_some] at h
  obtain ⟨-, -, h⟩ := h
  obtain ⟨dspace, s₁, hspace, h⟩ := bind_eq_some.1 h
  have hstays := laws.screate ddesc.length s
  rw [Option.some.inj hspace] at hstays
  by_cases hneg : dspace.val < 0
  · rw [if_pos hneg] at h
    cases h
    exact hstays
  rw [if_neg hneg] at h
  obtain ⟨dset, s₂, hdset, h⟩ := bind_eq_some.1 h
  obtain ⟨hfails, hcreates⟩ := laws.dcreate (Option.some.inj hdset)
  by_cases hneg' : dset.val < 0
  · rw [if_pos hneg'] at h
    cases h
    exact hstays.stays ((hfails hneg').stays (laws.sclose dspace s₂))
  · have hpos := (hcreates ((hid_pos_iff dset).2 hneg')).1
    omega

theorem stays_writeDsets (laws : h5.GroupLaws filename view) (hgid : gid ≤ 0)
    (h : h5.writeDsets gid ddescs s = some ((), s')) : (view s).Stays (view s') := by
  induction ddescs generalizing s with
  | nil =>
    cases h
    exact .refl _
  | cons ddesc ddescs ih =>
    obtain ⟨rc, s₁, hfirst, h⟩ := bind_eq_some.1 h
    have hstays := laws.stays_createDset hgid hfirst
    split_ifs at h with hrc
    · cases h
      exact hstays
    · exact hstays.stays (ih h)

/-! ## Conversions -/

/-- What a process leaves that has initialized and written as far as it has come. -/
theorem kept_forkEnds (laws : h5.GroupLaws filename view) (sound : (view s).Sound)
    (finds : h5.Finds filename view s) (file : creq.filename = some filename)
    (mode : creq.ovrwtmode.toNat ≠ TES_H5_OVRWT_FILE) (slash : '/' ∉ creq.group.getD [])
    (h : h5.ForkEnds creq.data s s') : (view s').Sound ∧ (view s).Kept (view s') := by
  cases h with
  | notRun => exact ⟨sound, GroupView.kept_of_file rfl⟩
  | init hinit =>
    obtain ⟨hsound, hkept, -⟩ := laws.carries_init sound finds file mode slash hinit
    exact ⟨hsound, hkept⟩
  | write hinit hwrite =>
    obtain ⟨hsound, hkept, hnone | ⟨t, x, hcarries, hgid, hno⟩⟩ :=
      laws.carries_init sound finds file mode slash hinit
    · have hstays := laws.stays_writeDsets
        (by rw [hnone]; exact (by decide : (-1 : ℤ) ≤ 0)) hwrite
      refine ⟨?_, hkept.trans (GroupView.kept_of_file hstays.file)⟩
      rw [GroupView.Sound, hstays.file]
      exact hsound
    · obtain ⟨t', hfills, hat⟩ := laws.fills_writeDsets ⟨hcarries.file, hgid⟩ hwrite
      have hcarries' : (view s).Carries t' (view s') :=
        ⟨hat.file, hcarries.apart.fills hfills,
          fun t₀ ht₀ => (hcarries.keeps t₀ ht₀).fills (hno t₀ ht₀) hfills⟩
      exact ⟨hcarries'.sound, hcarries'.kept⟩

theorem within_unmap (laws : h5.GroupLaws filename view) (ddescs : List DsetDesc) :
    Within (fun s s' => (view s).Stays (view s')) (h5.unmap ddescs) := by
  obtain ⟨hrefl, htrans, -⟩ := laws.maps
  have hfile : ∀ ddesc, Within (fun s s' => (view s).Stays (view s')) (h5.unmapFile ddesc) := by
    intro ddesc
    unfold H5.unmapFile
    split
    · exact (within_act (laws.munmap _ _)).bind htrans fun _ => within_pure hrefl _
    · exact within_pure hrefl _
  induction ddescs with
  | nil => exact within_pure hrefl _
  | cons ddesc ddescs ih =>
    exact (hfile ddesc).bind htrans fun _ => ih.bind htrans fun _ => within_pure hrefl _

/-- A conversion leaves the file as a process does that initializes and writes. -/
theorem exists_forkEnds (laws : h5.GroupLaws filename view) {r : CapStatus × List DsetDesc}
    (h : h5.hdf5Conv (some creq) s = some (r, s')) :
    ∃ s₁, h5.ForkEnds creq.data s s₁ ∧ (view s').file = (view s₁).file := by
  rw [H5.hdf5Conv] at h
  dsimp only at h
  by_cases valid : creq.Valid
  · rw [if_neg (not_not.2 valid)] at h
    obtain ⟨⟨status, data⟩, s₁, hrun, h⟩ := bind_eq_some.1 h
    obtain ⟨ddescs', s₂, hunmap, h⟩ := bind_eq_some.1 h
    cases h
    rw [(laws.within_unmap _ _ _ _ hunmap).file]
    by_cases async : creq.async = true
    · rw [if_pos async] at hrun
      obtain ⟨forked, s₃, hfork, hrun⟩ := bind_eq_some.1 hrun
      cases hrun
      obtain ⟨s₄, hends, hleaves⟩ := laws.fork creq.data s
      rw [ConvReq.data, Option.some.inj hfork] at hleaves
      exact ⟨s₄, hends, hleaves.file⟩
    · rw [if_neg async] at hrun
      obtain ⟨⟨status₁, data₁⟩, s₃, hinit, hrun⟩ := bind_eq_some.1 hrun
      dsimp only at hrun
      by_cases hok : status₁ = .ok
      · rw [if_pos hok] at hrun
        obtain ⟨status₂, s₄, hwrite, hrun⟩ := bind_eq_some.1 hrun
        cases hrun
        obtain ⟨_, s₅, hdsets, hwrite⟩ := bind_eq_some.1 hwrite
        cases hwrite
        rw [← List.take_length (l := data.dsets)] at hdsets
        refine ⟨s₅, .write hinit hdsets, ?_⟩
        · rw [(laws.fclose _ _).file, (laws.gclose _ _).file]
      · rw [if_neg hok] at hrun
        cases hrun
        exact ⟨s₁, .init hinit, rfl⟩
  · rw [if_pos valid] at h
    cases h
    exact ⟨s, .notRun, rfl⟩

theorem kept_hdf5Conv (laws : h5.GroupLaws filename view) (sound : (view s).Sound)
    (finds : h5.Finds filename view s) (file : creq.filename = some filename)
    (mode : creq.ovrwtmode.toNat ≠ TES_H5_OVRWT_FILE) (slash : '/' ∉ creq.group.getD [])
    {r : CapStatus × List DsetDesc} (h : h5.hdf5Conv (some creq) s = some (r, s')) :
    (view s').Sound ∧ (view s).Kept (view s') := by
  obtain ⟨s₁, hends, hfile⟩ := laws.exists_forkEnds h
  obtain ⟨hsound, hkept⟩ := laws.kept_forkEnds sound finds file mode slash hends
  refine ⟨?_, hkept.trans (GroupView.kept_of_file hfile)⟩
  rw [GroupView.Sound, hfile]
  exact hsound

section Refused

variable {rootGid : ℤ}

/-- The file is opened as it is, with the group in it. -/
theorem refused_root (laws : h5.GroupLaws filename view) (finds : h5.Finds filename view s)
    (file : creq.filename = some filename) (mode : creq.ovrwtmode.toNat ≠ TES_H5_OVRWT_FILE)
    (there : group ∈ (view s).names) (hopen : h5.openFile creq s = some (some fid, s₁))
    (hroot : h5.getGrp fid ROOT_GROUP true s₁ = some (rootGid, s₂)) :
    ∃ t, (view s).file = some t ∧ (view s₂).file = some t ∧ (rootGid > 0 → ∃ c,
      (view s₂).At t rootGid c ∧ t.link c group ≠ none) := by
  obtain ⟨t, ht, c, o, hc, ho⟩ := there
  cases laws.openFile file mode hopen with
  | created hcreates => exact absurd ⟨ROOT_GROUP, .inl rfl, c, group, hc, ho⟩ (finds hcreates t ht o)
  | found _ hfile hopens =>
    cases ht.symm.trans hfile
    cases laws.getsGrp (by decide) ⟨hopens.file, hopens.opened⟩ hroot with
    | failed hleaves => exact ⟨t, ht, hleaves.file, fun h => absurd h (by decide)⟩
    | absent _ _ hleaves => exact ⟨t, ht, hleaves.file, fun h => absurd h (by decide)⟩
    | created _ _ habsent => cases habsent.symm.trans hc
    | found _ hx hopens' =>
      cases hx.symm.trans hc
      exact ⟨t, ht, hopens'.file, fun _ => ⟨_, ⟨hopens'.file, hopens'.opened⟩, by simp [ho]⟩⟩

/-- The group is not created a second time. -/
theorem refused_client (laws : h5.GroupLaws filename view) (finds : h5.Finds filename view s)
    (file : creq.filename = some filename) (mode : creq.ovrwtmode.toNat ≠ TES_H5_OVRWT_FILE)
    (slash : '/' ∉ group) (there : group ∈ (view s).names) {clientGid : ℤ} {s₃ : σ}
    (hopen : h5.openFile creq s = some (some fid, s₁))
    (hroot : h5.getGrp fid ROOT_GROUP true s₁ = some (rootGid, s₂)) (hpos : rootGid > 0)
    (hclient : h5.crtGrp rootGid group (-1) [] s₂ = some (clientGid, s₃)) :
    clientGid ≤ 0 ∧ (view s₃).file = (view s).file := by
  obtain ⟨t, ht, -, hopened⟩ := laws.refused_root finds file mode there hopen hroot
  obtain ⟨c, hat, hthere⟩ := hopened hpos
  rcases laws.crtGrp_without slash hat (by decide) hclient with
    ⟨hneg, -, hleaves⟩ | ⟨-, _, _, habsent, -⟩
  · exact ⟨hneg, hleaves.file.trans ht.symm⟩
  · exact absurd habsent hthere

/-- The initialization is refused if the group is there, and the file is as it was. -/
theorem refused_init (laws : h5.GroupLaws filename view) (finds : h5.Finds filename view s)
    (file : data.creq.filename = some filename)
    (mode : data.creq.ovrwtmode.toNat = TES_H5_OVRWT_NONE) (slash : '/' ∉ data.creq.group.getD [])
    (there : data.creq.group.getD [] ∈ (view s).names)
    (h : h5.hdf5Init data s = some ((rc, data'), s')) :
    (view s').file = (view s).file ∧ data'.groupId = data.groupId := by
  have hmode : data.creq.ovrwtmode.toNat ≠ TES_H5_OVRWT_FILE := by rw [mode]; decide
  cases initEnds_of_hdf5Init h with
  | notOpened hopen =>
    cases laws.openFile file hmode hopen with
    | failed _ hstays => exact ⟨hstays.file, rfl⟩
  | noRoot hopen hroot =>
    obtain ⟨t, ht, ht', -⟩ := laws.refused_root finds file hmode there hopen hroot
    rw [(laws.fclose _ _).file, ht, ht']
    exact ⟨rfl, rfl⟩
  | noName _ _ _ hovrwt => cases (ovrwtGrp_none mode _ _).symm.trans hovrwt
  | noGroup hopen hroot hpos hovrwt hclient =>
    cases (ovrwtGrp_none mode _ _).symm.trans hovrwt
    have hrefused := laws.refused_client finds file hmode slash there hopen hroot hpos hclient
    rw [(laws.fclose _ _).file, laws.closeGroups_file, hrefused.2]
    exact ⟨rfl, rfl⟩
  | notMapped hopen hroot hpos hovrwt hclient hcpos =>
    cases (ovrwtGrp_none mode _ _).symm.trans hovrwt
    have hrefused := laws.refused_client finds file hmode slash there hopen hroot hpos hclient
    exact absurd hrefused.1 (Int.not_le.2 hcpos)
  | done hopen hroot hpos hovrwt hclient hcpos =>
    cases (ovrwtGrp_none mode _ _).symm.trans hovrwt
    have hrefused := laws.refused_client finds file hmode slash there hopen hroot hpos hclient
    exact absurd hrefused.1 (Int.not_le.2 hcpos)

end Refused

/-- A conversion without overwriting changes nothing if the group is there. -/
theorem refused_hdf5Conv (laws : h5.GroupLaws filename view) (finds : h5.Finds filename view s)
    (file : creq.filename = some filename) (mode : creq.ovrwtmode.toNat = TES_H5_OVRWT_NONE)
    (slash : '/' ∉ creq.group.getD []) (there : creq.group.getD [] ∈ (view s).names)
    {r : CapStatus × List DsetDesc} (h : h5.hdf5Conv (some creq) s = some (r, s')) :
    (view s').file = (view s).file := by
  obtain ⟨s₁, hends, hfile⟩ := laws.exists_forkEnds h
  rw [hfile]
  cases hends with
  | notRun => rfl
  | init hinit => exact (laws.refused_init finds file mode slash there hinit).1
  | write hinit hwrite =>
    obtain ⟨hsame, hnone⟩ := laws.refused_init finds file mode slash there hinit
    rw [← hsame]
    exact (laws.stays_writeDsets (by rw [hnone]; exact (by decide : (-1 : ℤ) ≤ 0)) hwrite).file

end H5.GroupLaws

/-! ## Sequences of conversions -/

open Runs

/-- A conversion, or something else that changes the state. -/
inductive ConvEvent (σ : Type)
  | conv (creq : ConvReq)
  | other (f : σ → σ)

/-- The state after the event, if no assertion fails. -/
def H5.event (h5 : H5 σ) : ConvEvent σ → σ → Option σ
  | .conv creq, s => (h5.hdf5Conv (some creq) s).map Prod.snd
  | .other f, s => some (f s)

namespace ConvEvent

/-- A conversion to this hdf5 file that is not to overwrite it.  What else happens does not change the
file. -/
def Preserving (filename : CStr) (view : σ → GroupView ι γ) : ConvEvent σ → Prop
  | .conv creq => creq.filename = some filename ∧
      (creq.ovrwtmode.toNat = TES_H5_OVRWT_NONE ∨ creq.ovrwtmode.toNat = TES_H5_OVRWT_RELINK) ∧
      '/' ∉ creq.group.getD []
  | .other f => ∀ s, (view (f s)).file = (view s).file

/-- A conversion does not create the file over one with measurement groups. -/
def Finds (h5 : H5 σ) (filename : CStr) (view : σ → GroupView ι γ) : ConvEvent σ → σ → Prop
  | .conv _, s => h5.Finds filename view s
  | .other _, _ => True

end ConvEvent

/-- In the run of these events, a measurement group is, from when it is there, in the group for
measurements or in the one for what is overwritten, and is as it was with all that is in it; and a
conversion without overwriting changes nothing if the group is there. -/
structure GroupsKept (h5 : H5 σ) (view : σ → GroupView ι γ) (es : List (ConvEvent σ)) (s : σ) :
    Prop where
  kept : ∀ {es₁ es₂ es₃ s₁ s₂}, es = es₁ ++ es₂ ++ es₃ → run h5.event es₁ s = some s₁ →
    run h5.event es₂ s₁ = some s₂ → ∀ {t m}, (view s₁).file = some t → t.MemberOf ROOT_GROUP m →
    ∃ t', (view s₂).file = some t' ∧ (t'.MemberOf ROOT_GROUP m ∨ t'.MemberOf OVRWT_GROUP m) ∧
      t.Same t' m
  refused : ∀ {es₁ creq es₂ s₁ s₂}, es = es₁ ++ .conv creq :: es₂ →
    run h5.event es₁ s = some s₁ → h5.event (.conv creq) s₁ = some s₂ →
    creq.ovrwtmode.toNat = TES_H5_OVRWT_NONE → creq.group.getD [] ∈ (view s₁).names →
    (view s₂).file = (view s₁).file

section Events

variable {e : ConvEvent σ} {es : List (ConvEvent σ)}

theorem kept_event (laws : h5.GroupLaws filename view) (sound : (view s).Sound)
    (hmode : e.Preserving filename view) (hfinds : e.Finds h5 filename view s)
    (h : h5.event e s = some s') : (view s').Sound ∧ (view s).Kept (view s') := by
  cases e with
  | conv creq =>
    obtain ⟨hfile, hmode, hslash⟩ := hmode
    obtain ⟨⟨r, s₁⟩, hconv, rfl⟩ := Option.map_eq_some_iff.1 h
    refine laws.kept_hdf5Conv sound hfinds hfile ?_ hslash hconv
    rcases hmode with hmode | hmode <;> rw [hmode] <;> decide
  | other f =>
    cases h
    refine ⟨?_, GroupView.kept_of_file (hmode s)⟩
    rw [GroupView.Sound, hmode s]
    exact sound

theorem kept_run (laws : h5.GroupLaws filename view) (sound : (view s).Sound)
    (along : Along h5.event (fun e s => e.Preserving filename view ∧ e.Finds h5 filename view s) es s)
    (h : run h5.event es s = some s') : (view s').Sound ∧ (view s).Kept (view s') := by
  refine @invariant_of_along _ _ _ _ (fun s' => (view s').Sound ∧ (view s).Kept (view s')) ?_ es s s'
    ⟨sound, GroupView.kept_of_file rfl⟩ along h
  rintro e s₁ s₂ ⟨hsound, hkept⟩ ⟨hmode, hfinds⟩ hevent
  obtain ⟨hsound', hkept'⟩ := kept_event laws hsound hmode hfinds hevent
  exact ⟨hsound', hkept.trans hkept'⟩

/-- No measurement group is lost in a run in which the file is found whenever there are measurement
groups in it. -/
theorem groups_kept (laws : h5.GroupLaws filename view)
    (tree : ∀ t, (view s).file = some t → t.IsTree)
    (modes : ∀ e ∈ es, e.Preserving filename view)
    (finds : Along h5.event (ConvEvent.Finds h5 filename view) es s) :
    GroupsKept h5 view es s := by
  have sound : (view s).Sound := fun t ht => (tree t ht).apart
  have along := along_and (along_of_forall (fun e he _ => modes e he) s) finds
  constructor
  · intro es₁ es₂ es₃ s₁ s₂ hes h₁ h₂ t m ht hm
    rw [hes, List.append_assoc] at along
    have along₂ := along_of_append along h₁
    obtain ⟨hsound, -⟩ := kept_run laws sound (along_left along) h₁
    obtain ⟨-, hkept⟩ := kept_run laws hsound (along_left along₂) h₂
    obtain ⟨t', ht', hkeeps⟩ := hkept t ht
    obtain ⟨⟨k, hk, hm'⟩, hsame⟩ := hkeeps m ⟨ROOT_GROUP, .inl rfl, hm⟩
    refine ⟨t', ht', ?_, hsame⟩
    rcases hk with rfl | rfl
    · exact .inl hm'
    · exact .inr hm'
  · intro es₁ creq es₂ s₁ s₂ hes h₁ h₂ hmode hthere
    rw [hes] at along
    obtain ⟨⟨⟨hfile, -, hslash⟩, hfinds⟩, -⟩ := along_of_append along h₁
    obtain ⟨⟨r, s₃⟩, hconv, rfl⟩ := Option.map_eq_some_iff.1 h₂
    exact laws.refused_hdf5Conv hfinds hfile hmode hslash hthere hconv

end Events

/-! ## Conversions that are run on the reference -/

/-- The request for which the old group is renamed. -/
def relinkReq : ConvReq := { reqOf fileAndBuffer with ovrwtmode := 1 }

namespace World

/-- The hdf5 file is there, but `access` does not find it. -/
def unfound : World := { holding with hidden := true }

/-- The hdf5 file after these events. -/
def fileAfter (es : List (ConvEvent World)) (w : World) : Option (Option Store) :=
  (run (calls fiveBytes).event es w).map World.file

theorem finds_of_hidden {w : World} (h : w.hidden = false) (disk : List (CStr × List UInt8))
    (filename : CStr) : (calls disk).Finds filename groupView w := by
  rintro ⟨hmissing, -⟩ t ht
  obtain ⟨f, hf, -⟩ := Option.map_eq_some_iff.1 ht
  have hfound : w.access.1 = true := by simp [access, hf, h]
  cases hfound.symm.trans hmissing

theorem isTree_holding (t : LinkTree ℕ CStr (CStr → Option (List UInt8)))
    (h : holding.groupView.file = some t) : t.IsTree := by
  obtain rfl := Option.some.inj h
  exact Store.isTree (by decide) (by decide)

end World

/-- The old group is renamed, and the next conversion is refused. -/
theorem groups_kept_renamed :
    GroupsKept (World.calls World.fiveBytes) World.groupView
      [.conv relinkReq, .conv (reqOf fileAndBuffer)] World.holding ∧
    World.fileAfter [.conv relinkReq, .conv (reqOf fileAndBuffer)] World.holding =
      some (some ⟨[((1, "m".toList), 4), ((3, "m_7".toList), 2), ((0, OVRWT_GROUP), 3),
        ((0, ROOT_GROUP), 1)], [((4, "b".toList), [4, 5]), ((4, "f".toList), [11, 12, 13]),
        ((2, "f".toList), [7])]⟩) := by
  refine ⟨groups_kept (World.groupLaws World.fiveBytes "a.hdf5".toList) World.isTree_holding ?_
    ⟨World.finds_of_hidden rfl _ _, fun s' hs' => ⟨World.finds_of_hidden ?_ _ _, fun _ _ => trivial⟩⟩,
    by decide +kernel⟩
  · intro e he
    rcases List.mem_cons.1 he with rfl | he
    · exact ⟨rfl, .inr rfl, by decide⟩
    · obtain rfl := List.mem_singleton.1 he
      exact ⟨rfl, .inl rfl, by decide⟩
  · have hhidden : ((World.calls World.fiveBytes).event (.conv relinkReq) World.holding).map
        World.hidden = some false := by decide +kernel
    rw [hs'] at hhidden
    exact Option.some.inj hhidden

/-- The file is not found and is created over the old one: the dataset in the group is lost. -/
theorem not_groups_kept : ¬ ∀ (h5 : H5 World) (filename : CStr)
    (view : World → GroupView ℕ (CStr → Option (List UInt8))) (es : List (ConvEvent World))
    (s : World), h5.GroupLaws filename view → (∀ t, (view s).file = some t → t.IsTree) →
    (∀ e ∈ es, e.Preserving filename view) → GroupsKept h5 view es s := by
  intro h
  have hclaim : GroupsKept (World.calls World.fiveBytes) World.groupView
      [.conv (reqOf fileAndBuffer)] World.unfound := by
    refine h _ "a.hdf5".toList _ _ _ (World.groupLaws _ _) World.isTree_holding fun e he => ?_
    obtain rfl := List.mem_singleton.1 he
    exact ⟨rfl, .inl rfl, by decide⟩
  have hafter : World.fileAfter [.conv (reqOf fileAndBuffer)] World.unfound =
      some (some ⟨[((1, "m".toList), 2), ((0, ROOT_GROUP), 1)], [((2, "b".toList), [4, 5]),
        ((2, "f".toList), [11, 12, 13])]⟩) := by decide +kernel
  obtain ⟨s', hrun, hfile⟩ := Option.map_eq_some_iff.1 hafter
  obtain ⟨t', ht', -, hsame⟩ := @GroupsKept.kept _ _ _ _ _ _ _ hclaim [] _ [] _ s' rfl rfl hrun _ 2
    rfl ⟨1, "m".toList, rfl, rfl⟩
  obtain ⟨f, hf, rfl⟩ := Option.map_eq_some_iff.1 ht'
  cases hf.symm.trans hfile
  have hcontents := congrFun (hsame 2 .refl).2 "f".toList
  exact absurd hcontents (by decide)

end Tesd
