import Tesd.CapIdle
import Tesd.Containment
import Tesd.Lib.PathEntries

/-!
# The files of a refused request

Whether a capture that cannot open its files leaves the regular files as they were.  The data files
are removed and made one after the other, and nothing is undone when one of them fails.  So all is
well just if no file before the failing one has been made, other than an empty one in the place of
an empty one, and if no regular file has been removed that could not be made again.
-/

namespace Tesd

open Posix FileSystem

/-- The regular files of the two trees are the same. -/
def SameFiles (fs fs' : FileSystem) : Prop :=
  ∀ p data, fs'.node p = some (.file data) ↔ fs.node p = some (.file data)

/-- An empty file is there, which may be removed and made again. -/
structure Remade (rights : Rights) (fs : FileSystem) (dir : Path) (c : Name) : Prop where
  look : Lookable rights dir c
  file : fs.node (dir ++ [c]) = some (.file [])
  remove : rights.remove (dir ++ [c]) = true
  create : rights.create (dir ++ [c]) = true

/-- Opening a data file of this name changes the regular files: one is made where there was none, or
one is taken away. -/
def Touches (rights : Rights) (excl : Bool) (fs : FileSystem) (dir : Path) (c : Name) : Prop :=
  Lookable rights dir c ∧
    match fs.node (dir ++ [c]) with
    | none => rights.create (dir ++ [c]) = true
    | some .dir => False
    | some (.file data) => excl = false ∧ rights.remove (dir ++ [c]) = true ∧
        (data ≠ [] ∨ rights.create (dir ++ [c]) = false)
    | some .other => excl = false ∧ rights.remove (dir ++ [c]) = true ∧
        rights.create (dir ++ [c]) = true
    | some (.symlink _) => excl = false ∧
        -- a link that leads nowhere is not removed but followed
        if fs.accessOk rights (spell (dir ++ [c])) = true then
          rights.remove (dir ++ [c]) = true ∧ rights.create (dir ++ [c]) = true
        else (fs.openCreat rights (spell (dir ++ [c]))).1.isOk = true

/-! ## Trees -/

section Trees

variable {fs fs' fs'' : FileSystem}

theorem eq_of_node (h : fs'.node = fs.node) : fs' = fs := by
  cases fs
  cases fs'
  cases h
  rfl

theorem sameFiles_refl (fs : FileSystem) : SameFiles fs fs := fun _ _ => Iff.rfl

theorem SameFiles.trans (h : SameFiles fs fs') (h' : SameFiles fs' fs'') : SameFiles fs fs'' :=
  fun p data => (h' p data).trans (h p data)

theorem SameFiles.symm (h : SameFiles fs fs') : SameFiles fs' fs := fun p data => (h p data).symm

/-- What is not a regular file may come and go. -/
theorem sameFiles_of_update {p : Path} {x : Option Node}
    (old : ∀ data, fs.node p ≠ some (.file data)) (new : ∀ data, x ≠ some (.file data))
    (h : fs'.node = Function.update fs.node p x) : SameFiles fs fs' := by
  intro q data
  rw [h]
  by_cases hq : q = p
  · subst hq
    rw [Function.update_self]
    exact iff_of_false (new data) (old data)
  · rw [Function.update_of_ne hq]

theorem sameFiles_create_dir (fs : FileSystem) (rights : Rights)
    (place : Except Posix.Errno (Path × Name)) : SameFiles fs (fs.create rights .dir place).2 := by
  rcases create_place fs rights .dir place with ⟨err, h⟩ | ⟨d, c, h, hnone, -⟩
  · rw [h]
    exact sameFiles_refl fs
  · rw [h]
    by_cases hmay : fs.node d = some .dir ∧ Legal c ∧ fs.node (d ++ [c]) = none
    · refine sameFiles_of_update (p := d ++ [c]) (x := some .dir) ?_ ?_ ?_
      · simp [hnone]
      · simp
      · rw [enter, dif_pos hmay]
        rfl
    · rw [enter, dif_neg hmay]
      exact sameFiles_refl fs

end Trees

/-! ## Opening one file -/

namespace CapData

variable {w : CapWorld} {excl : Bool} {fs : FileSystem} {dir : Path} {c : Name}

/-- What an `open` that returns with this gives: the file and what it holds. -/
def opened : Except Posix.Errno Path × FileSystem → Option (Path × List UInt8) × FileSystem
  | (.error _, fs) => (none, fs)
  | (.ok p, fs) =>
    (some (p, match fs.node p with
      | some (.file data) => data
      | _ => []), fs)

/-- Without a removal, the file is opened as it is. -/
theorem openByName_direct {s : CStr} (h : excl = true ∨ fs.accessOk w.rights s = false) :
    openByName w excl s fs =
      opened (if excl = true then fs.openExcl w.rights s else fs.openCreat w.rights s) := by
  have hno : ¬(!excl && fs.accessOk w.rights s) = true := by
    rcases h with h | h <;> simp [h]
  unfold openByName
  dsimp only
  rw [if_neg hno, if_neg (by simp)]
  rcases (if excl = true then fs.openExcl w.rights s else fs.openCreat w.rights s) with
    ⟨err | p, fs'⟩ <;> rfl

theorem openByName_denied (access : fs.accessOk w.rights (spell (dir ++ [c])) = true)
    (e : Entry fs w.rights dir c) (h : ¬(Lookable w.rights dir c ∧
      w.rights.remove (dir ++ [c]) = true ∧ fs.node (dir ++ [c]) ≠ none ∧
      fs.node (dir ++ [c]) ≠ some .dir)) :
    openByName w false (spell (dir ++ [c])) fs = (none, fs) := by
  obtain ⟨herr, hfs⟩ := unlink_refused e h
  unfold openByName
  dsimp only
  rw [access, Bool.not_false, Bool.true_and, if_pos rfl, if_pos herr, hfs]

/-- The entry is removed, and made again if it may be. -/
theorem openByName_removed (access : fs.accessOk w.rights (spell (dir ++ [c])) = true)
    (e : Entry fs w.rights dir c) (look : Lookable w.rights dir c) {n : Node}
    (there : fs.node (dir ++ [c]) = some n) (notDir : n ≠ .dir)
    (remove : w.rights.remove (dir ++ [c]) = true) :
    (w.rights.create (dir ++ [c]) = true ∧
        (openByName w false (spell (dir ++ [c])) fs).1 = some (dir ++ [c], []) ∧
        (openByName w false (spell (dir ++ [c])) fs).2.node =
          Function.update fs.node (dir ++ [c]) (some (.file []))) ∨
      w.rights.create (dir ++ [c]) = false ∧
        (openByName w false (spell (dir ++ [c])) fs).1 = none ∧
        (openByName w false (spell (dir ++ [c])) fs).2.node =
          Function.update fs.node (dir ++ [c]) none := by
  obtain ⟨hnone, hnode⟩ := unlink_entry e look there notDir remove
  rcases hun : fs.unlink w.rights (spell (dir ++ [c])) with ⟨err, fs₁⟩
  rw [hun] at hnone hnode
  obtain rfl : err = none := hnone
  change fs₁.node = _ at hnode
  have hgone : fs₁.node (dir ++ [c]) = none := by rw [hnode, Function.update_self]
  have e₁ : Entry fs₁ w.rights dir c := entry_of_dirs (fun p hp => by
    have := dirs_unlink fs w.rights (spell (dir ++ [c])) hp
    rwa [hun] at this) e
  have heq : openByName w false (spell (dir ++ [c])) fs =
      opened (fs₁.create w.rights (.file []) (.ok (dir, c))) := by
    unfold openByName
    dsimp only
    rw [access, Bool.not_false, Bool.true_and, if_pos rfl, hun]
    dsimp only
    rw [if_neg (by simp), if_neg (by simp), openCreat_none e₁ look hgone]
    rcases fs₁.create w.rights (.file []) (.ok (dir, c)) with ⟨err | p, fs'⟩ <;> rfl
  rw [heq]
  cases hcreate : w.rights.create (dir ++ [c]) with
  | true =>
    left
    obtain ⟨hok, hmade⟩ := create_of_none (n := .file []) e₁.dir (legal_of_entry e₁ look) hgone
      hcreate
    rcases hcr : fs₁.create w.rights (.file []) (.ok (dir, c)) with ⟨rc, fs₂⟩
    rw [hcr] at hok hmade
    obtain rfl : rc = .ok (dir ++ [c]) := hok
    change fs₂.node = _ at hmade
    rw [hnode, Function.update_idem] at hmade
    refine ⟨rfl, ?_, hmade⟩
    simp only [opened, hmade, Function.update_self]
  | false =>
    right
    have hno : ¬(fs₁.node (dir ++ [c]) = none ∧ w.rights.create (dir ++ [c]) = true) := by
      simp [hcreate]
    obtain ⟨err, herr⟩ := create_refused (n := .file []) hno
    rw [herr]
    exact ⟨rfl, rfl, hnode⟩

theorem opened_tree (r : Except Posix.Errno Path × FileSystem) : (opened r).2 = r.2 := by
  rcases r with ⟨err | p, fs'⟩ <;> rfl

theorem keeps_openCreat (fs : FileSystem) (rights : Rights) (s : CStr) :
    fs.Keeps (fs.openCreat rights s).2 := by
  unfold openCreat
  split
  · split_ifs <;> exact keeps_refl fs
  · exact keeps_create fs rights (.file []) _
  · exact keeps_refl fs

/-- Opening a file by name keeps what there is, or else an entry that is not a directory is removed
first, and made again if it may be. -/
theorem openByName_outcomes (w : CapWorld) (excl : Bool) (e : Entry fs w.rights dir c) :
    fs.Keeps (openByName w excl (spell (dir ++ [c])) fs).2 ∨
      (fs.node (dir ++ [c]) ≠ some .dir ∧
        ((w.rights.create (dir ++ [c]) = true ∧
            (openByName w excl (spell (dir ++ [c])) fs).2.node =
              Function.update fs.node (dir ++ [c]) (some (.file []))) ∨
          (w.rights.create (dir ++ [c]) = false ∧
            (openByName w excl (spell (dir ++ [c])) fs).2.node =
              Function.update fs.node (dir ++ [c]) none))) := by
  cases excl with
  | true =>
    rw [openByName_direct (Or.inl rfl), opened_tree, if_pos rfl]
    exact Or.inl (keeps_create fs w.rights (.file []) _)
  | false =>
    cases access : fs.accessOk w.rights (spell (dir ++ [c])) with
    | false =>
      rw [openByName_direct (Or.inr access), opened_tree, if_neg (by simp)]
      exact Or.inl (keeps_openCreat fs w.rights _)
    | true =>
      by_cases h : Lookable w.rights dir c ∧ w.rights.remove (dir ++ [c]) = true ∧
        fs.node (dir ++ [c]) ≠ none ∧ fs.node (dir ++ [c]) ≠ some .dir
      · obtain ⟨look, remove, hsome, hdir⟩ := h
        obtain ⟨n, there⟩ := Option.ne_none_iff_exists'.1 hsome
        have notDir : n ≠ .dir := fun hn => hdir (by rw [there, hn])
        rcases openByName_removed access e look there notDir remove with
          ⟨hcreate, -, hnode⟩ | ⟨hcreate, -, hnode⟩
        · exact Or.inr ⟨hdir, Or.inl ⟨hcreate, hnode⟩⟩
        · exact Or.inr ⟨hdir, Or.inr ⟨hcreate, hnode⟩⟩
      · rw [openByName_denied access e h]
        exact Or.inl (keeps_refl fs)

theorem dirs_openByName (w : CapWorld) (excl : Bool) (e : Entry fs w.rights dir c) {p : Path}
    (isDir : fs.node p = some .dir) :
    (openByName w excl (spell (dir ++ [c])) fs).2.node p = some .dir := by
  rcases openByName_outcomes w excl e with h | ⟨hdir, ⟨-, h⟩ | ⟨-, h⟩⟩
  · exact h p _ isDir
  all_goals
    have hne : p ≠ dir ++ [c] := by
      rintro rfl
      exact hdir isDir
    rw [h, Function.update_of_ne hne, isDir]

/-- An empty file that could be made stays, or is made again. -/
theorem empty_openByName (w : CapWorld) (excl : Bool) (e : Entry fs w.rights dir c) {q : Path}
    (create : w.rights.create q = true) (file : fs.node q = some (.file [])) :
    (openByName w excl (spell (dir ++ [c])) fs).2.node q = some (.file []) := by
  rcases openByName_outcomes w excl e with h | ⟨-, ⟨-, h⟩ | ⟨hno, h⟩⟩
  · exact h q _ file
  · rw [h, Function.update_apply]
    split_ifs
    · rfl
    · exact file
  · have hne : q ≠ dir ++ [c] := by
      rintro rfl
      rw [create] at hno
      cases hno
    rw [h, Function.update_of_ne hne, file]

theorem accessOk_some (e : Entry fs w.rights dir c) (look : Lookable w.rights dir c) {n : Node}
    (there : fs.node (dir ++ [c]) = some n) (notLink : ∀ target, n ≠ .symlink target) :
    fs.accessOk w.rights (spell (dir ++ [c])) = true := by
  rw [accessOk, resolve_some e look there notLink]

theorem accessOk_none (e : Entry fs w.rights dir c)
    (h : ¬Lookable w.rights dir c ∨ fs.node (dir ++ [c]) = none) :
    fs.accessOk w.rights (spell (dir ++ [c])) = false := by
  by_cases look : Lookable w.rights dir c
  · rw [accessOk, resolve_none e look (h.resolve_left (not_not.2 look))]
  · obtain ⟨err, -, herr⟩ := resolve_of_not_lookable e look
    rw [accessOk, herr]

/-- Opening by the name of an entry that is not there makes it, if it may be made. -/
theorem openByName_none (e : Entry fs w.rights dir c) (look : Lookable w.rights dir c)
    (none : fs.node (dir ++ [c]) = none) : openByName w excl (spell (dir ++ [c])) fs =
      opened (fs.create w.rights (.file []) (.ok (dir, c))) := by
  rw [openByName_direct (Or.inr (accessOk_none e (Or.inr none)))]
  cases excl with
  | true => rw [if_pos rfl, openExcl, parent_entry e look]
  | false => rw [if_neg (by simp), openCreat_none e look none]

/-- What is left after opening a file that touches the regular files: one that is empty and was
not, or one less. -/
def Altered (rights : Rights) (fs fs' : FileSystem) : Prop :=
  (∃ q, rights.create q = true ∧ fs.node q ≠ some (.file []) ∧ fs'.node q = some (.file [])) ∨
    ∃ q data, fs.node q = some (.file data) ∧ fs'.node q = none

/-- A file that is opened although it touches the regular files has been made. -/
theorem openByName_touches (e : Entry fs w.rights dir c) (h : Touches w.rights excl fs dir c) :
    (∃ q, w.rights.create q = true ∧ fs.node q ≠ some (.file []) ∧
        (openByName w excl (spell (dir ++ [c])) fs).2.node q = some (.file [])) ∨
      (openByName w excl (spell (dir ++ [c])) fs).1 = none ∧
        Altered w.rights fs (openByName w excl (spell (dir ++ [c])) fs).2 := by
  obtain ⟨look, h⟩ := h
  cases hnode : fs.node (dir ++ [c]) with
  | none =>
    rw [hnode] at h
    obtain ⟨-, hmade⟩ := create_of_none (n := .file []) e.dir (legal_of_entry e look) hnode h
    rw [openByName_none e look hnode, opened_tree, hmade]
    exact Or.inl ⟨dir ++ [c], h, by simp [hnode], Function.update_self _ _ _⟩
  | some n =>
    rw [hnode] at h
    cases n with
    | dir => exact h.elim
    | file data =>
      obtain ⟨rfl, remove, hdata⟩ := h
      have access := accessOk_some e look hnode fun _ hl => by cases hl
      rcases openByName_removed access e look hnode (by simp) remove with
        ⟨hcreate, -, hafter⟩ | ⟨-, hfail, hafter⟩
      · have hne : data ≠ [] := hdata.resolve_right (by simp [hcreate])
        have hmade : (openByName w false (spell (dir ++ [c])) fs).2.node (dir ++ [c]) =
            some (.file []) := by
          rw [hafter, Function.update_self]
        exact Or.inl ⟨dir ++ [c], hcreate, by simp [hnode, hne], hmade⟩
      · exact Or.inr ⟨hfail, Or.inr ⟨dir ++ [c], data, hnode, by rw [hafter, Function.update_self]⟩⟩
    | other =>
      obtain ⟨rfl, remove, create⟩ := h
      have access := accessOk_some e look hnode fun _ hl => by cases hl
      rcases openByName_removed access e look hnode (by simp) remove with
        ⟨-, -, hafter⟩ | ⟨hcreate, -, -⟩
      · exact Or.inl ⟨dir ++ [c], create, by simp [hnode], by rw [hafter, Function.update_self]⟩
      · simp [create] at hcreate
    | symlink target =>
      obtain ⟨rfl, h⟩ := h
      cases access : fs.accessOk w.rights (spell (dir ++ [c])) with
      | true =>
        rw [if_pos access] at h
        obtain ⟨remove, create⟩ := h
        rcases openByName_removed access e look hnode (by simp) remove with
          ⟨-, -, hafter⟩ | ⟨hcreate, -, -⟩
        · exact Or.inl ⟨dir ++ [c], create, by simp [hnode], by rw [hafter, Function.update_self]⟩
        · simp [create] at hcreate
      | false =>
        rw [if_neg (by simp [access])] at h
        rcases hopen : fs.openCreat w.rights (spell (dir ++ [c])) with ⟨err | p, fs'⟩
        · rw [hopen] at h
          cases h
        · obtain ⟨hnone, hcreate, hmade⟩ := openCreat_created access hopen
          rw [openByName_direct (Or.inr access), if_neg (by simp), hopen]
          exact Or.inl ⟨p, hcreate, by simp [hnone], hmade⟩

/-- An entry that is not a regular file is refused, or removed for good. -/
theorem openByName_other (access : fs.accessOk w.rights (spell (dir ++ [c])) = true)
    (e : Entry fs w.rights dir c) (look : Lookable w.rights dir c) {n : Node}
    (there : fs.node (dir ++ [c]) = some n) (notFile : ∀ data, n ≠ .file data) (notDir : n ≠ .dir)
    (h : ¬(w.rights.remove (dir ++ [c]) = true ∧ w.rights.create (dir ++ [c]) = true)) :
    (openByName w false (spell (dir ++ [c])) fs).1 = none ∧
      SameFiles fs (openByName w false (spell (dir ++ [c])) fs).2 := by
  by_cases remove : w.rights.remove (dir ++ [c]) = true
  · rcases openByName_removed access e look there notDir remove with
      ⟨hcreate, -, -⟩ | ⟨-, hfail, hnode⟩
    · exact absurd ⟨remove, hcreate⟩ h
    · exact ⟨hfail, sameFiles_of_update (by simpa [there] using notFile) (by simp) hnode⟩
  · rw [openByName_denied access e (fun hall => remove hall.2.1)]
    exact ⟨rfl, sameFiles_refl fs⟩

theorem openByName_not_lookable (e : Entry fs w.rights dir c) (look : ¬Lookable w.rights dir c) :
    openByName w excl (spell (dir ++ [c])) fs = (none, fs) := by
  rw [openByName_direct (Or.inr (accessOk_none e (Or.inl look)))]
  cases excl with
  | true =>
    obtain ⟨err, herr⟩ := parent_of_not_lookable e look
    rw [if_pos rfl, openExcl, herr]
    rfl
  | false =>
    obtain ⟨err, herr⟩ := openCreat_of_not_lookable e look
    rw [if_neg (by simp), herr]
    rfl

/-- Without overwriting, what is there is not opened. -/
theorem openByName_exists (e : Entry fs w.rights dir c) (look : Lookable w.rights dir c)
    (there : fs.node (dir ++ [c]) ≠ none) :
    openByName w true (spell (dir ++ [c])) fs = (none, fs) := by
  have hno : ¬(fs.node (dir ++ [c]) = none ∧ w.rights.create (dir ++ [c]) = true) :=
    fun h => there h.1
  obtain ⟨err, herr⟩ := create_refused (n := .file []) hno
  rw [openByName_direct (Or.inl rfl), if_pos rfl, openExcl, parent_entry e look, herr]
  rfl

/-- The others fail with the regular files as they were, or put an empty file in the place of an
empty one. -/
theorem openByName_spares (e : Entry fs w.rights dir c) (h : ¬Touches w.rights excl fs dir c) :
    ((openByName w excl (spell (dir ++ [c])) fs).1 = none ∧
        SameFiles fs (openByName w excl (spell (dir ++ [c])) fs).2 ∧
        ¬(excl = false ∧ Remade w.rights fs dir c)) ∨
      excl = false ∧ Remade w.rights fs dir c ∧
        openByName w excl (spell (dir ++ [c])) fs = (some (dir ++ [c], []), fs) := by
  by_cases look : Lookable w.rights dir c
  swap
  · rw [openByName_not_lookable e look]
    exact Or.inl ⟨rfl, sameFiles_refl fs, fun hr => look hr.2.look⟩
  rw [Touches, and_iff_right look] at h
  cases hnode : fs.node (dir ++ [c]) with
  | none =>
    rw [hnode] at h
    have hno : ¬(fs.node (dir ++ [c]) = none ∧ w.rights.create (dir ++ [c]) = true) :=
      fun hall => h hall.2
    obtain ⟨err, herr⟩ := create_refused (n := .file []) hno
    rw [openByName_none e look hnode, herr]
    exact Or.inl ⟨rfl, sameFiles_refl fs, fun hr => by simpa [hnode] using hr.2.file⟩
  | some n =>
    rw [hnode] at h
    cases excl with
    | true =>
      rw [openByName_exists e look (by simp [hnode])]
      exact Or.inl ⟨rfl, sameFiles_refl fs, fun hr => by simp at hr⟩
    | false =>
      cases n with
      | dir =>
        have access := accessOk_some e look hnode fun _ hl => by cases hl
        rw [openByName_denied access e (by simp [hnode])]
        exact Or.inl ⟨rfl, sameFiles_refl fs, fun hr => by simpa [hnode] using hr.2.file⟩
      | file data =>
        have access := accessOk_some e look hnode fun _ hl => by cases hl
        by_cases remove : w.rights.remove (dir ++ [c]) = true
        · rcases openByName_removed access e look hnode (by simp) remove with
            ⟨hcreate, hopen, hafter⟩ | ⟨hcreate, -, -⟩
          · -- what is made again is what was there
            obtain rfl : data = [] := by
              by_contra hne
              exact h ⟨rfl, remove, Or.inl hne⟩
            rw [← hnode, Function.update_eq_self] at hafter
            exact Or.inr ⟨rfl, ⟨look, hnode, remove, hcreate⟩,
              Prod.ext hopen (eq_of_node hafter)⟩
          · exact absurd ⟨rfl, remove, Or.inr hcreate⟩ h
        · rw [openByName_denied access e (fun hall => remove hall.2.1)]
          exact Or.inl ⟨rfl, sameFiles_refl fs, fun hr => remove hr.2.remove⟩
      | other =>
        have access := accessOk_some e look hnode fun _ hl => by cases hl
        obtain ⟨hfail, hsame⟩ := openByName_other access e look hnode (by simp) (by simp)
          (fun hall => h ⟨rfl, hall⟩)
        exact Or.inl ⟨hfail, hsame, fun hr => by simpa [hnode] using hr.2.file⟩
      | symlink target =>
        have hno : ¬(false = false ∧ Remade w.rights fs dir c) := fun hr => by
          simpa [hnode] using hr.2.file
        cases access : fs.accessOk w.rights (spell (dir ++ [c])) with
        | true =>
          dsimp only at h
          rw [if_pos access] at h
          obtain ⟨hfail, hsame⟩ := openByName_other access e look hnode (by simp) (by simp)
            (fun hall => h ⟨rfl, hall⟩)
          exact Or.inl ⟨hfail, hsame, hno⟩
        | false =>
          dsimp only at h
          rw [if_neg (by simp [access])] at h
          rcases hopen : fs.openCreat w.rights (spell (dir ++ [c])) with ⟨err | p, fs'⟩
          · obtain rfl := openCreat_error hopen
            rw [openByName_direct (Or.inr access), if_neg (by simp), hopen]
            exact Or.inl ⟨rfl, sameFiles_refl _, hno⟩
          · exact absurd ⟨rfl, by rw [hopen]; rfl⟩ h

/-! ## Closing what has been opened -/

section Closing

variable {d : CapData} {fs fs' : FileSystem} {q : Path} {dss : List Dset}

theorem truncate_zero {p : Path} (h : fs.node q = none ∨ fs.node q = some (.file [])) :
    (fs.truncate p 0).node q = fs.node q := by
  unfold truncate
  split
  next data hp =>
    by_cases hq : q = p
    · subst hq
      obtain rfl : data = [] := by
        rcases h with h | h
        · rw [hp] at h
          cases h
        · rw [hp] at h
          simpa using h
      exact (Function.update_self _ _ _).trans hp.symm
    · exact Function.update_of_ne hq _ _
  · rfl

/-- No bytes of any data file are written. -/
def Unwritten (d : CapData) : Prop := ∀ ds, (d.job.aio ds).size = 0

theorem unwritten_closeAiobuf (unwritten : d.Unwritten) (ds : Dset) (fs : FileSystem) :
    (d.closeAiobuf ds fs).1.Unwritten := by
  unfold closeAiobuf
  split
  · exact unwritten
  · intro ds'
    dsimp only
    by_cases heq : ds' = ds
    · subst heq
      rw [Function.update_self, Aiobuf.closeAiobuf]
      split_ifs
      · exact unwritten ds'
      · rfl
    · rw [Function.update_of_ne heq]
      exact unwritten ds'

/-- What is not there, or empty, stays so when the files are closed. -/
theorem closeFiles_small (unwritten : d.Unwritten)
    (h : fs.node q = none ∨ fs.node q = some (.file [])) :
    (d.closeFiles dss fs).2.node q = fs.node q := by
  induction dss generalizing d fs with
  | nil => rfl
  | cons ds dss ih =>
    have hone : (d.closeAiobuf ds fs).2.node q = fs.node q := by
      unfold closeAiobuf
      split
      · rfl
      · rw [unwritten ds]
        exact truncate_zero h
    rw [closeFiles, ih (unwritten_closeAiobuf unwritten ds fs) (by rwa [hone]), hone]

/-- The open files are empty ones, and nothing is written. -/
structure Emptied (d : CapData) (fs : FileSystem) : Prop where
  unwritten : d.Unwritten
  file : ∀ ds p, d.fildes ds = some p → fs.node p = some (.file [])

theorem closeFiles_emptied (emptied : d.Emptied fs) : (d.closeFiles dss fs).2 = fs := by
  apply eq_of_node
  funext p
  by_cases hopen : ∀ ds, d.fildes ds ≠ some p
  · exact closeFiles_node hopen
  · rw [not_forall] at hopen
    obtain ⟨ds, hds⟩ := hopen
    exact closeFiles_small emptied.unwritten (Or.inr (emptied.file ds p (not_not.1 hds)))

theorem not_sameFiles_of_altered {rights : Rights} (h : Altered rights fs fs') :
    ¬SameFiles fs fs' := by
  intro same
  rcases h with ⟨q, -, hold, hnew⟩ | ⟨q, data, hold, hnew⟩
  · exact hold ((same q []).1 hnew)
  · have := (same q data).2 hold
    rw [hnew] at this
    cases this

/-- Closing the files does not make up for it. -/
theorem altered_closeFiles {rights : Rights} (unwritten : d.Unwritten) (h : Altered rights fs fs') :
    Altered rights fs (d.closeFiles dss fs').2 := by
  rcases h with ⟨q, hcreate, hold, hnew⟩ | ⟨q, data, hold, hnew⟩
  · exact Or.inl ⟨q, hcreate, hold, by rw [closeFiles_small unwritten (Or.inr hnew), hnew]⟩
  · exact Or.inr ⟨q, data, hold, by rw [closeFiles_small unwritten (Or.inl hnew), hnew]⟩

end Closing

/-! ## Opening all files -/

section Opening

variable {d : CapData} {dss : List Dset}

theorem unwritten_withFile (unwritten : d.Unwritten) (b : Bool) (ds : Dset) (p : Path)
    (sched : Schedule) (contents : List UInt8) :
    ((d.dbgAssert b).withFile ds p sched contents).Unwritten := by
  intro ds'
  by_cases heq : ds' = ds
  · subst heq
    rw [withFile_aio_self]
    exact unwritten ds'
  · rw [withFile_aio_of_ne heq]
    exact unwritten ds'

theorem unwritten_openAll (unwritten : d.Unwritten) (w : CapWorld) (excl : Bool) (dss : List Dset)
    (fs : FileSystem) : (d.openAll w excl dss fs).2.1.Unwritten := by
  induction dss generalizing d fs with
  | nil => exact unwritten
  | cons ds dss ih =>
    obtain ⟨b, -, ⟨fs', hfail⟩ | ⟨p, contents, fs', hopen⟩⟩ := openAiobuf_cases w excl ds d fs
    · rw [openAll, hfail]
      exact unwritten
    · rw [openAll, hopen]
      exact ih (unwritten_withFile unwritten b ds p _ contents) fs'

/-- An empty file that has been made is there until the end. -/
theorem empty_openAll {q : Path} (create : w.rights.create q = true)
    (file : fs.node q = some (.file [])) (e : ∀ ds, Entry fs w.rights dir (dataName c ds))
    (names : ∀ ds ∈ dss, d.filename ds = spell (dir ++ [dataName c ds])) :
    (d.openAll w excl dss fs).2.2.node q = some (.file []) := by
  induction dss generalizing d fs with
  | nil => exact file
  | cons ds dss ih =>
    have hname := names ds List.mem_cons_self
    have hafter := empty_openByName w excl (e ds) create file
    have hdirs : ∀ p, fs.node p = some .dir →
        (openByName w excl (spell (dir ++ [dataName c ds])) fs).2.node p = some .dir :=
      fun p => dirs_openByName w excl (e ds)
    obtain ⟨b, -, heq⟩ := openAiobuf_eq w excl ds d fs
    rw [hname] at heq
    rcases hopen : openByName w excl (spell (dir ++ [dataName c ds])) fs with
      ⟨_ | ⟨p, contents⟩, fs'⟩
    · rw [hopen] at hafter heq
      rw [openAll, heq]
      exact hafter
    · rw [hopen] at hafter hdirs heq
      rw [openAll, heq]
      exact ih hafter (fun ds' => entry_of_dirs hdirs (e ds'))
        fun ds' hds' => names ds' (List.mem_cons_of_mem ds hds')

/-- Before a data file that touches the regular files, one is not an empty file that is made again:
that one fails. -/
def Spared (rights : Rights) (excl : Bool) (fs : FileSystem) (dir : Path) (c : Name)
    (dss : List Dset) : Prop :=
  ∀ pre ds post, dss = pre ++ ds :: post →
    (∀ ds' ∈ pre, excl = false ∧ Remade rights fs dir (dataName c ds')) →
    ¬Touches rights excl fs dir (dataName c ds)

theorem spared_cons {ds : Dset} : Spared w.rights excl fs dir c (ds :: dss) ↔
    ¬Touches w.rights excl fs dir (dataName c ds) ∧
      (excl = false ∧ Remade w.rights fs dir (dataName c ds) →
        Spared w.rights excl fs dir c dss) := by
  constructor
  · intro spared
    refine ⟨spared [] ds dss rfl (by simp), fun made pre ds' post heq hpre => ?_⟩
    refine spared (ds :: pre) ds' post (by rw [heq, List.cons_append]) fun x hx => ?_
    rcases List.mem_cons.1 hx with rfl | hx
    · exact made
    · exact hpre x hx
  · rintro ⟨hfirst, hrest⟩ pre ds' post heq hpre
    cases pre with
    | nil =>
      obtain ⟨rfl, -⟩ := List.cons.inj heq
      exact hfirst
    | cons x pre =>
      obtain ⟨rfl, htail⟩ := List.cons.inj heq
      exact hrest (hpre _ List.mem_cons_self) pre ds' post htail
        fun y hy => hpre y (List.mem_cons_of_mem _ hy)

/-- Opening the files and closing them leaves the regular files as they were just if they are
spared. -/
theorem openAll_sameFiles_iff (excl : Bool) (dss : List Dset)
    (e : ∀ ds, Entry fs w.rights dir (dataName c ds))
    (names : ∀ ds ∈ dss, d.filename ds = spell (dir ++ [dataName c ds]))
    (emptied : d.Emptied fs) : SameFiles fs ((d.openAll w excl dss fs).2.1.free.closeFiles Dset.all
      (d.openAll w excl dss fs).2.2).2 ↔ Spared w.rights excl fs dir c dss := by
  induction dss generalizing d with
  | nil =>
    have hfree : d.free.Emptied fs := ⟨emptied.unwritten, emptied.file⟩
    rw [openAll, closeFiles_emptied hfree]
    exact iff_of_true (sameFiles_refl fs) fun pre ds post heq => by simp at heq
  | cons ds dss ih =>
    have hname := names ds List.mem_cons_self
    obtain ⟨b, -, heq⟩ := openAiobuf_eq w excl ds d fs
    rw [hname] at heq
    rw [spared_cons]
    by_cases touches : Touches w.rights excl fs dir (dataName c ds)
    · refine iff_of_false ?_ fun h => h.1 touches
      have halter : Altered w.rights fs (d.openAll w excl (ds :: dss) fs).2.2 := by
        have hmade := openByName_touches (e ds) touches
        have hdirs : ∀ p, fs.node p = some .dir →
            (openByName w excl (spell (dir ++ [dataName c ds])) fs).2.node p = some .dir :=
          fun p => dirs_openByName w excl (e ds)
        rcases hopen : openByName w excl (spell (dir ++ [dataName c ds])) fs with
          ⟨_ | ⟨p, contents⟩, fs'⟩
        · rw [hopen] at hmade heq
          rw [openAll, heq]
          exact hmade.elim Or.inl And.right
        · rw [hopen] at hmade hdirs heq
          rw [openAll, heq]
          rcases hmade with ⟨q, hcreate, hold, hnew⟩ | ⟨hno, -⟩
          · exact Or.inl ⟨q, hcreate, hold, empty_openAll hcreate hnew
              (fun ds' => entry_of_dirs hdirs (e ds'))
              fun ds' hds' => names ds' (List.mem_cons_of_mem ds hds')⟩
          · cases hno
      have hunwritten : (d.openAll w excl (ds :: dss) fs).2.1.free.Unwritten :=
        unwritten_openAll emptied.unwritten w excl (ds :: dss) fs
      exact not_sameFiles_of_altered (altered_closeFiles hunwritten halter)
    · rw [and_iff_right touches]
      rcases openByName_spares (e ds) touches with ⟨hfail, hsame, hno⟩ | ⟨hexcl, hmade, hopen⟩
      · rcases hopen : openByName w excl (spell (dir ++ [dataName c ds])) fs with ⟨r, fs'⟩
        rw [hopen] at hfail hsame heq
        obtain rfl : r = none := hfail
        rw [openAll, heq]
        have hclosed : (d.dbgAssert b).free.Emptied fs' :=
          ⟨emptied.unwritten, fun ds' p hp => (hsame p []).2 (emptied.file ds' p hp)⟩
        dsimp only
        rw [closeFiles_emptied hclosed]
        exact iff_of_true hsame fun h => absurd h hno
      · rw [hopen] at heq
        rw [openAll, heq]
        dsimp only
        have hemptied :
            ((d.dbgAssert b).withFile ds (dir ++ [dataName c ds]) (w.sched ds) []).Emptied fs := by
          refine ⟨unwritten_withFile emptied.unwritten b ds _ _ [], fun ds' p hp => ?_⟩
          by_cases hds : ds' = ds
          · subst hds
            rw [withFile_fildes_self] at hp
            obtain rfl := Option.some.inj hp
            exact hmade.file
          · rw [withFile_fildes_of_ne hds] at hp
            exact emptied.file ds' p hp
        have hrest := ih (d := (d.dbgAssert b).withFile ds (dir ++ [dataName c ds]) (w.sched ds) [])
          (fun ds' hds' => names ds' (List.mem_cons_of_mem ds hds')) hemptied
        exact hrest.trans ⟨fun h _ => h, fun h => h ⟨hexcl, hmade⟩⟩

end Opening

/-! ## The request -/

section Request

variable {req : CapRequest} {d d' : CapData} {fs' : FileSystem}

theorem unlink_error {s : CStr} {rights : Rights} (h : (fs.unlink rights s).1 ≠ none) :
    (fs.unlink rights s).2 = fs := by
  rcases unlink_cases fs rights s with ⟨err, herr⟩ | ⟨-, -, -, -, -, hok, -⟩
  · rw [herr]
  · exact absurd hok h

/-- A capture that is refused leaves the regular files as they were just if they are spared. -/
theorem start_sameFiles_iff (e : ∀ ds, Entry fs w.rights dir (dataName c ds))
    (names : ∀ ds, d.filename ds = spell (dir ++ [dataName c ds])) (emptied : d.Emptied fs)
    (refused : (d.start w fs).reply ≠ none) :
    SameFiles fs (d.start w fs).fs ↔ Spared w.rights d.nooverwrite fs dir c Dset.all := by
  obtain ⟨b, heq⟩ := openFiles_eq w d.nooverwrite d fs
  have hemptied : (d.dbgAssert b).Emptied fs := ⟨emptied.unwritten, emptied.file⟩
  have hopened := openAll_sameFiles_iff d.nooverwrite Dset.all e
    (show ∀ ds ∈ Dset.all, (d.dbgAssert b).filename ds = spell (dir ++ [dataName c ds]) from
      fun ds _ => names ds) hemptied
  rw [← heq] at hopened
  rw [← hopened]
  unfold start at refused ⊢
  split at refused
  next d₁ fs₁ hopen =>
    rw [hopen]
    dsimp only at refused ⊢
    by_cases access : fs₁.accessOk w.rights d₁.statfilename = true
    · rw [if_pos access] at refused ⊢
      by_cases hunlink : (fs₁.unlink w.rights d₁.statfilename).1 = none
      · rw [if_neg (not_not.2 hunlink)] at refused
        exact absurd rfl refused
      · rw [if_pos hunlink, unlink_error hunlink]
    · rw [if_neg access, if_neg (not_not.2 rfl)] at refused
      exact absurd rfl refused
  next rc d₁ fs₁ hno hopen =>
    rw [hopen]

theorem sameFiles_constructFilenames {rc : CapStatus}
    (h : d.constructFilenames w fs = some (rc, d', fs')) : SameFiles fs fs' :=
  (constructFilenames_rel sameFiles_refl SameFiles.trans
    (fun fs _ => sameFiles_create_dir fs w.rights _) h).1

/-- A request that is not valid is not refused for want of files. -/
theorem not_accepted_of_isReqValid {rc : CapStatus} (capture : req.Captures)
    (h : ((d.recv req).isReqValid w).1 = rc) (refused : rc = .eabort ∨ rc = .efail) :
    ¬req.Accepted w := by
  intro accepted
  have hgroup : ¬((d.recv req).measurement = none ∧ w.mallocOk = false) := by
    rintro ⟨hnone, hmalloc⟩
    rcases accepted.group with hg | hg
    · exact hg hnone
    · rw [hmalloc] at hg
      cases hg
  rw [isReqValid_capture d capture, if_neg hgroup] at h
  subst h
  split_ifs at refused <;> simp at refused

end Request

end CapData

/-- The request gets as far as opening its data files, in the directory `dir` by the name `c` with
their extensions; `fs'` is the tree after the directories on the way have been created. -/
structure CapRequest.Opens (w : CapWorld) (req : CapRequest) (fs fs' : FileSystem) (dir : Path)
    (c : Name) : Prop where
  accepted : req.Accepted w
  named : req.Named w fs fs' (spell (dir ++ [c]))
  isDir : fs'.node dir = some .dir
  slash : '/' ∉ c

namespace CapData

section Opens

variable {w : CapWorld} {req : CapRequest} {d d' : CapData} {fs fs' : FileSystem}

/-- The directory and the name that a request's data files have are determined by it. -/
theorem opens_unique {dir dir' : Path} {c c' : Name} (h : spell (dir ++ [c]) = spell (dir' ++ [c']))
    (isDir : fs.node dir = some .dir) (slash : '/' ∉ c) (isDir' : fs.node dir' = some .dir)
    (slash' : '/' ∉ c') : dir = dir' ∧ c = c' := by
  obtain ⟨hdir, hc⟩ := List.append_inj' (spell_injective (slash_notMem_child isDir slash)
    (slash_notMem_child isDir' slash') h) rfl
  exact ⟨hdir, List.singleton_inj.1 hc⟩

theorem entry_of_placed {dir : Path} {c : Name} (placed : Placed w d fs dir c) (ds : Dset) :
    Entry fs w.rights dir (dataName c ds) := by
  have hlen : (dataName c ds).length = c.length + 5 := by simp [dataName]
  refine ⟨placed.real, placed.isDir, dataName_ne_nil c ds, fun h => ?_, fun h => ?_,
    slash_notMem_dataName placed.slash ds⟩
  · rw [h, List.length_singleton] at hlen
    omega
  · rw [h] at hlen
    simp at hlen

end Opens

end CapData

namespace CapData

variable {w : CapWorld} {d : CapData} {fs : FileSystem}

theorem query_aio (w : CapWorld) (d : CapData) (fs : FileSystem) :
    (d.query w fs).data.job.aio = d.job.aio := by
  unfold query
  generalize (if d.job.core.noconvert = true then (CapStatus.ok, fs) else w.conv d fs) = r
  have hread : (d.statsRead w r.2).2.job.aio = d.job.aio := by
    rw [statsRead_eq]
    rfl
  dsimp only
  split
  · rfl
  · split
    next h =>
      rw [h] at hread
      exact hread
    next h =>
      rw [h] at hread
      exact hread

theorem unwritten_closeFiles (unwritten : d.Unwritten) (dss : List Dset) (fs : FileSystem) :
    (d.closeFiles dss fs).1.Unwritten := by
  induction dss generalizing d fs with
  | nil => exact unwritten
  | cons ds dss ih => exact ih (unwritten_closeAiobuf unwritten ds fs) _

theorem unwritten_start (unwritten : d.Unwritten) (w : CapWorld) (fs : FileSystem) :
    (d.start w fs).data.Unwritten := by
  obtain ⟨b, heq⟩ := openFiles_eq w d.nooverwrite d fs
  have hopened : (d.openFiles w d.nooverwrite fs).2.1.Unwritten := by
    rw [heq]
    exact unwritten_openAll (d := d.dbgAssert b) unwritten w d.nooverwrite Dset.all fs
  unfold start
  split
  next d₁ fs₁ hopen =>
    rw [hopen] at hopened
    have hfree : d₁.free.Unwritten := hopened
    dsimp only
    generalize (if fs₁.accessOk w.rights d₁.statfilename = true then
      fs₁.unlink w.rights d₁.statfilename else (none, fs₁)) = r
    split_ifs
    · exact unwritten_closeFiles hfree Dset.all r.2
    · exact hopened
  next rc d₁ fs₁ hno hopen =>
    rw [hopen] at hopened
    have hfree : d₁.free.Unwritten := hopened
    exact unwritten_closeFiles hfree Dset.all fs₁

end CapData

/-- What is asked of the task's data holds again after each request. -/
theorem unwritten_of_taskCapReqHn {w : CapWorld} {req : CapRequest} {d : CapData} {fs : FileSystem}
    {out : CapOutcome} (unwritten : d.Unwritten) (h : taskCapReqHn w req d fs = some out) :
    out.data.Unwritten := by
  have hvalid := CapData.sameJob_isReqValid w ((d.dbgAssert !d.job.core.recording).recv req)
  have hrecv : ((d.dbgAssert !d.job.core.recording).recv req).Unwritten := unwritten
  rcases taskCapReqHn_cases h with ⟨rc, d₁, hchecks, -, rfl⟩ | ⟨d₁, hchecks, hrest⟩
  · rw [hchecks] at hvalid
    exact fun ds => (congrArg Aiobuf.size (congrFun hvalid.aio ds)).trans (hrecv ds)
  · rw [hchecks] at hvalid
    have hnamed : ∀ {rc d₂ fs₁}, d₁.constructFilenames w fs = some (rc, d₂, fs₁) →
        d₂.Unwritten := fun hnames ds =>
      (congrArg Aiobuf.size (congrFun
        (hvalid.trans (CapData.sameJob_constructFilenames hnames)).aio ds)).trans (hrecv ds)
    rcases hrest with ⟨rc, d₂, fs₁, hnames, -, rfl⟩ | ⟨d₂, fs₁, hnames, rfl⟩
    · have hunwritten : d₂.Unwritten := hnamed hnames
      exact hunwritten
    · split_ifs
      · intro ds
        rw [CapData.query_aio]
        exact hnamed hnames ds
      · exact CapData.unwritten_start (hnamed hnames) w fs₁

/-- A capture that is refused for its files leaves all regular files as they were if and only if
those are spared that it opens. -/
theorem refused_files_iff {w : CapWorld} {req : CapRequest} {d : CapData} {fs : FileSystem}
    {out : CapOutcome} {rc : CapStatus} (idle : d.Idle) (unwritten : d.Unwritten)
    (capture : req.Captures) (h : taskCapReqHn w req d fs = some out)
    (reply : out.reply = some (errReply rc)) (refused : rc = .eabort ∨ rc = .efail) :
    SameFiles fs out.fs ↔ ∀ fs' dir c, req.Opens w fs fs' dir c →
      CapData.Spared w.rights (req.ovrwtmode.toNat == TES_H5_OVRWT_NONE) fs' dir c Dset.all := by
  have hinj : ∀ {rc'}, some (errReply rc') = some (errReply rc) → rc' = rc := fun heq =>
    congrArg CapReply.status (Option.some.inj heq)
  rcases taskCapReqHn_cases h with ⟨rc', d₁, hchecks, -, rfl⟩ | ⟨d₁, hchecks, hrest⟩
  · refine iff_of_true (sameFiles_refl fs) fun fs' dir c opens => absurd opens.accepted ?_
    exact CapData.not_accepted_of_isReqValid capture
      ((congrArg Prod.fst hchecks).trans (hinj reply)) refused
  · have checked := CapData.checkedCapture_of_isReqValid capture hchecks
    have accepted := CapData.accepted_of_isReqValid capture (congrArg Prod.fst hchecks)
    rcases hrest with ⟨rc', d₂, fs₁, hnames, hno, rfl⟩ | ⟨d₂, fs₁, hnames, rfl⟩
    · refine iff_of_true (CapData.sameFiles_constructFilenames hnames) fun fs' dir c opens => ?_
      obtain ⟨d₃, hconstruct, -⟩ :=
        CapData.constructFilenames_of_named checked.base checked.group checked.nocapture opens.named
      rw [hnames] at hconstruct
      cases hconstruct
      exact absurd rfl hno
    · have hasNames := CapData.hasNames_of_constructFilenames checked.base checked.group
        checked.nocapture hnames
      obtain ⟨dir, c, placed⟩ := CapData.placed_of_hasNames hasNames
      have hcap : d₂.nocapture = false := hasNames.nocapture.trans checked.nocapture
      rw [hcap, if_neg (by decide)] at reply ⊢
      have hvalid := CapData.sameJob_isReqValid w ((d.dbgAssert !d.job.core.recording).recv req)
      rw [hchecks] at hvalid
      have hjob := hvalid.trans (CapData.sameJob_constructFilenames hnames)
      have emptied : d₂.Emptied fs₁ := by
        refine ⟨fun ds => ?_, fun ds p hp => ?_⟩
        · rw [hjob.aio]
          exact unwritten ds
        · rw [hjob.fildes] at hp
          cases (idle ds).symm.trans hp
      have hsame := CapData.sameFiles_constructFilenames hnames
      have hstart := CapData.start_sameFiles_iff (CapData.entry_of_placed placed) placed.names
        emptied (by rw [reply]; exact Option.some_ne_none _)
      rw [hasNames.nooverwrite, checked.nooverwrite] at hstart
      constructor
      · intro same fs' dir' c' opens
        obtain ⟨d₃, hconstruct, hstat⟩ :=
          CapData.constructFilenames_of_named checked.base checked.group checked.nocapture opens.named
        -- these are the names that the handler has constructed
        rw [hnames] at hconstruct
        cases hconstruct
        obtain ⟨rfl, rfl⟩ := CapData.opens_unique (hstat.symm.trans placed.stat) opens.isDir
          opens.slash placed.isDir placed.slash
        exact hstart.1 (hsame.symm.trans same)
      · intro spared
        exact hsame.trans (hstart.2 (spared fs₁ dir c
          ⟨accepted, placed.stat ▸ hasNames.named, placed.isDir, placed.slash⟩))

/-- A request to overwrite the files of this name with a capture of one tick. -/
def overwriteOf (c : CStr) : CapRequest := { captureOf c with ovrwtmode := 2 }

/-- The data root with the file `a.fidx`, and a directory where `a.midx` should be. -/
def blockedFile : FileSystem :=
  (oneFile "a.fidx".toList [1, 2]).enter rootPath "a.midx".toList .dir

theorem refused_files_iff_exists : ∃ out, taskCapReqHn fineWorld (captureOf "a".toList) .init
    (oneFile "a.fidx".toList [1, 2]) = some out ∧ out.reply = some (errReply .eabort) ∧
      (SameFiles (oneFile "a.fidx".toList [1, 2]) out.fs ↔ ∀ fs' dir c,
        (captureOf "a".toList).Opens fineWorld (oneFile "a.fidx".toList [1, 2]) fs' dir c →
          CapData.Spared everyRight true fs' dir c Dset.all) := by
  have hreply : (taskCapReqHn fineWorld (captureOf "a".toList) .init
      (oneFile "a.fidx".toList [1, 2])).map (fun out => out.reply) =
        some (some (errReply .eabort)) := by
    decide +kernel
  obtain ⟨out, hout, hrep⟩ := Option.map_eq_some_iff.1 hreply
  exact ⟨out, hout, hrep, refused_files_iff (fun _ => rfl) (fun _ => rfl) (Or.inl (by decide)) hout
    hrep (Or.inl rfl)⟩

/-- The index of an earlier capture is emptied by one that cannot open its next file. -/
theorem not_refused_files : ¬∀ (w : CapWorld) (req : CapRequest) (d : CapData) (fs : FileSystem)
    (out : CapOutcome) (rc : CapStatus), d.Idle → d.Unwritten → req.Captures →
      taskCapReqHn w req d fs = some out → out.reply = some (errReply rc) →
      rc = .eabort ∨ rc = .efail → SameFiles fs out.fs := by
  intro hall
  let path : Path := rootPath ++ ["a.fidx".toList]
  have hfile : blockedFile.node path = some (.file [1, 2]) := by decide +kernel
  have hrun : (taskCapReqHn fineWorld (overwriteOf "a".toList) .init blockedFile).map
      (fun out => (out.reply, out.fs.node path)) =
        some (some (errReply .efail), some (.file [])) := by
    decide +kernel
  obtain ⟨out, hout, heq⟩ := Option.map_eq_some_iff.1 hrun
  obtain ⟨hreply, hnode⟩ := Prod.mk.inj heq
  have hkept := (hall fineWorld (overwriteOf "a".toList) .init blockedFile out .efail
    (fun _ => rfl) (fun _ => rfl) (Or.inl (by decide)) hout hreply (Or.inr rfl) path [1, 2]).2 hfile
  rw [hnode] at hkept
  simp at hkept

end Tesd
