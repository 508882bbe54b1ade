import Mathlib.Data.List.Induction
import Tesd.Lib.FileSystem

/-!
# What path names denote

A path name resolves to a real path: the directories on the way are there, may be searched, and none
of them is a symbolic link.  The name of a real path resolves to it.  Creating files keeps what
there is, and a removal takes just the entry that its path name is about.
-/

namespace Posix

/-! ## Splitting names -/

theorem splitOn_slash {s : List Char} {c : Name} (h : c ∈ s.splitOn '/') : '/' ∉ c := by
  induction s generalizing c with
  | nil =>
    rw [List.splitOn_nil, List.mem_singleton] at h
    subst h
    exact List.not_mem_nil
  | cons x s ih =>
    rw [List.splitOn_cons_eq_if_modifyHead] at h
    split_ifs at h with hx
    · rcases List.mem_cons.1 h with rfl | h
      · exact List.not_mem_nil
      · exact ih h
    · obtain ⟨y, ys, hsplit⟩ := List.exists_cons_of_ne_nil (List.splitOn_ne_nil '/' s)
      rw [hsplit, List.modifyHead_cons] at h
      rw [hsplit] at ih
      rcases List.mem_cons.1 h with rfl | h
      · intro hmem
        rcases List.mem_cons.1 hmem with rfl | hmem
        · exact hx (by decide)
        · exact ih List.mem_cons_self hmem
      · exact ih (List.mem_cons_of_mem y h)

theorem splitOn_concat_slash (s : List Char) : (s ++ ['/']).splitOn '/' = s.splitOn '/' ++ [[]] :=
  List.splitOn_append_cons_self s []

@[simp] theorem spell_nil : spell [] = [] := rfl

@[simp] theorem spell_cons (c : Name) (p : Path) : spell (c :: p) = '/' :: (c ++ spell p) := rfl

theorem spell_append (p q : Path) : spell (p ++ q) = spell p ++ spell q := by
  rw [spell, List.flatMap_append, spell, spell]

theorem spell_concat (p : Path) (c : Name) : spell (p ++ [c]) = spell p ++ '/' :: c := by
  rw [spell_append, spell_cons, spell_nil, List.append_nil]

theorem splitOn_spell {p : Path} (h : ∀ c ∈ p, '/' ∉ c) : (spell p).splitOn '/' = [] :: p := by
  induction p with
  | nil => rfl
  | cons c p ih =>
    have hrest := ih fun c' hc' => h c' (List.mem_cons_of_mem c hc')
    rw [spell_cons]
    have hslash : ('/' :: (c ++ spell p)).splitOn '/' = [] :: (c ++ spell p).splitOn '/' := by
      rw [List.splitOn_cons_eq_if_modifyHead]
      exact if_pos (by decide)
    rw [hslash]
    congr 1
    cases p with
    | nil =>
      rw [spell_nil, List.append_nil]
      exact List.splitOn_eq_singleton (h c List.mem_cons_self)
    | cons c' p =>
      rw [spell_cons] at hrest ⊢
      rw [List.splitOn_append_cons_self_of_not_mem (h c List.mem_cons_self)]
      rw [List.splitOn_cons_eq_if_modifyHead, if_pos (by decide)] at hrest
      rw [(List.cons.inj hrest).2]

/-- Names without slashes are spelled out in one way. -/
theorem spell_injective {p q : Path} (hp : ∀ c ∈ p, '/' ∉ c) (hq : ∀ c ∈ q, '/' ∉ c)
    (h : spell p = spell q) : p = q := by
  have hsplit := congrArg (List.splitOn '/') h
  rw [splitOn_spell hp, splitOn_spell hq] at hsplit
  exact (List.cons.inj hsplit).2

namespace FileSystem

variable {fs fs' fs'' : FileSystem} {rights : Rights}

/-! ## Real paths -/

/-- The directories on the way to a path are there and may be searched, and what is there is not a
symbolic link. -/
structure Real (fs : FileSystem) (rights : Rights) (p : Path) : Prop where
  way : ∀ q c r, p = q ++ c :: r → fs.node q = some .dir ∧ rights.search q = true
  node : ∃ n, fs.node p = some n ∧ ∀ target, n ≠ .symlink target

theorem real_root (fs : FileSystem) (rights : Rights) : fs.Real rights [] :=
  ⟨fun q c r h => by simp at h, .dir, fs.root, fun _ h => by cases h⟩

/-- The names of what is there. -/
theorem legal_of_node {p : Path} {n : Node} (h : fs.node p = some n) : ∀ c ∈ p, Legal c := by
  induction p using List.reverseRecOn generalizing n with
  | nil => exact fun c hc => absurd hc List.not_mem_nil
  | append_singleton p c ih =>
    intro c' hc'
    rcases List.mem_append.1 hc' with hc' | hc'
    · exact ih (fs.tree p c n h) c' hc'
    · rw [List.mem_singleton.1 hc']
      exact fs.legal p c n h

theorem slash_notMem_child {p : Path} {c : Name} (dir : fs.node p = some .dir) (slash : '/' ∉ c) :
    ∀ x ∈ p ++ [c], '/' ∉ x := by
  intro x hx
  rcases List.mem_append.1 hx with hx | hx
  · exact (legal_of_node dir x hx).slash
  · rwa [List.mem_singleton.1 hx]

theorem real_child {p : Path} {c : Name} {n : Node} (real : fs.Real rights p)
    (dir : fs.node p = some .dir) (search : rights.search p = true)
    (there : fs.node (p ++ [c]) = some n) (notLink : ∀ target, n ≠ .symlink target) :
    fs.Real rights (p ++ [c]) := by
  refine ⟨fun q c' r h => ?_, n, there, notLink⟩
  rcases List.eq_nil_or_concat' r with rfl | ⟨r', x, rfl⟩
  · obtain ⟨rfl, -⟩ := List.append_inj' h rfl
    exact ⟨dir, search⟩
  · rw [← List.cons_append, ← List.append_assoc] at h
    obtain ⟨hp, -⟩ := List.append_inj' h rfl
    exact real.way q c' r' hp

theorem real_dropLast {p : Path} (real : fs.Real rights p) : fs.Real rights p.dropLast := by
  rcases List.eq_nil_or_concat' p with rfl | ⟨q, x, rfl⟩
  · exact real
  · rw [List.dropLast_concat]
    obtain ⟨hdir, -⟩ := real.way q x [] rfl
    refine ⟨fun q' c r h => ?_, .dir, hdir, fun _ h => by cases h⟩
    exact real.way q' c (r ++ [x]) (by rw [h, List.append_assoc, List.cons_append])

/-- The directories on the way to a real directory are real. -/
theorem real_prefix {p q : Path} (real : fs.Real rights p) (dir : fs.node p = some .dir)
    (pre : q <+: p) : fs.Real rights q ∧ fs.node q = some .dir := by
  obtain ⟨r, rfl⟩ := pre
  cases r with
  | nil =>
    rw [List.append_nil] at real dir
    exact ⟨real, dir⟩
  | cons c r =>
    obtain ⟨hdir, -⟩ := real.way q c r rfl
    refine ⟨⟨fun q' c' r' h => ?_, .dir, hdir, fun _ h => by cases h⟩, hdir⟩
    exact real.way q' c' (r' ++ c :: r) (by rw [h, List.append_assoc, List.cons_append])

/-- What one step of a walk does that goes well. -/
theorem walkWith_cons_cases {follow : Path → List Name → Except Errno Path} {cur : Path} {c : Name}
    {cs : List Name} {p : Path} (h : fs.walkWith rights follow cur (c :: cs) = .ok p) :
    fs.node cur = some .dir ∧ ((c = [] ∧ fs.walkWith rights follow cur cs = .ok p) ∨
      rights.search cur = true ∧ ((c = ['.'] ∧ fs.walkWith rights follow cur cs = .ok p) ∨
        (c = ['.', '.'] ∧ fs.walkWith rights follow cur.dropLast cs = .ok p) ∨
        ∃ n, fs.node (cur ++ [c]) = some n ∧
          ((∃ target, n = .symlink target ∧ target ≠ [] ∧ follow
              (if target.head? = some '/' then [] else cur) (target.splitOn '/' ++ cs) = .ok p) ∨
            (∀ target, n ≠ .symlink target) ∧
              fs.walkWith rights follow (cur ++ [c]) cs = .ok p))) := by
  rw [walkWith] at h
  by_cases hdir : fs.node cur = some .dir
  · refine ⟨hdir, ?_⟩
    rw [if_neg (not_not.2 hdir)] at h
    by_cases hempty : c = []
    · rw [if_pos hempty] at h
      exact .inl ⟨hempty, h⟩
    rw [if_neg hempty] at h
    by_cases hsearch : rights.search cur = true
    · refine .inr ⟨hsearch, ?_⟩
      rw [if_neg (by simp [hsearch])] at h
      by_cases hdot : c = ['.']
      · rw [if_pos hdot] at h
        exact .inl ⟨hdot, h⟩
      rw [if_neg hdot] at h
      by_cases hdots : c = ['.', '.']
      · rw [if_pos hdots] at h
        exact .inr (.inl ⟨hdots, h⟩)
      rw [if_neg hdots] at h
      by_cases hlong : c.length > NAME_MAX
      · rw [if_pos hlong] at h
        cases h
      rw [if_neg hlong] at h
      refine .inr (.inr ?_)
      cases hnode : fs.node (cur ++ [c]) with
      | none =>
        rw [hnode] at h
        cases h
      | some n =>
        rw [hnode] at h
        refine ⟨n, rfl, ?_⟩
        cases n with
        | symlink target =>
          dsimp only at h
          by_cases hnone : target = []
          · rw [if_pos hnone] at h
            cases h
          · rw [if_neg hnone] at h
            exact .inl ⟨target, rfl, hnone, h⟩
        | dir => exact .inr ⟨nofun, h⟩
        | file data => exact .inr ⟨nofun, h⟩
        | other => exact .inr ⟨nofun, h⟩
    · rw [if_pos (by simp [hsearch])] at h
      cases h
  · rw [if_pos hdir] at h
    cases h

theorem real_of_walkWith {follow : Path → List Name → Except Errno Path}
    (hfollow : ∀ cur cs p, fs.Real rights cur → follow cur cs = .ok p → fs.Real rights p)
    {cur : Path} {cs : List Name} {p : Path} (real : fs.Real rights cur)
    (h : fs.walkWith rights follow cur cs = .ok p) : fs.Real rights p := by
  induction cs generalizing cur with
  | nil =>
    obtain rfl := Except.ok.inj h
    exact real
  | cons c cs ih =>
    obtain ⟨hdir, ⟨-, hempty⟩ | ⟨hsearch, ⟨-, hdot⟩ | ⟨-, hup⟩ | ⟨n, hnode, hdown⟩⟩⟩ :=
      walkWith_cons_cases h
    · exact ih real hempty
    · exact ih real hdot
    · exact ih (real_dropLast real) hup
    · rcases hdown with ⟨target, -, -, hlink⟩ | ⟨hno, hdown⟩
      · split_ifs at hlink
        · exact hfollow _ _ p (real_root fs rights) hlink
        · exact hfollow _ _ p real hlink
      · exact ih (real_child real hdir hsearch hnode hno) hdown

theorem real_of_walk {n : ℕ} {cur : Path} {cs : List Name} {p : Path} (real : fs.Real rights cur)
    (h : fs.walk rights n cur cs = .ok p) : fs.Real rights p := by
  induction n generalizing cur cs p with
  | zero => exact real_of_walkWith (fun _ _ _ _ hno => by cases hno) real h
  | succ n ih => exact real_of_walkWith (fun _ _ _ hcur hgo => ih hcur hgo) real h

/-- What a path name denotes is real. -/
theorem real_of_resolve {s : List Char} {p : Path} (h : fs.resolve rights s = .ok p) :
    fs.Real rights p :=
  real_of_walk (real_root fs rights) h

/-- Walking down a real path ends there. -/
theorem walkWith_of_real {follow : Path → List Name → Except Errno Path} {cur : Path}
    {cs : List Name} (real : fs.Real rights (cur ++ cs)) :
    fs.walkWith rights follow cur cs = .ok (cur ++ cs) := by
  induction cs generalizing cur with
  | nil => rw [walkWith, List.append_nil]
  | cons c cs ih =>
    obtain ⟨hdir, hsearch⟩ := real.way cur c cs rfl
    obtain ⟨n, hn, -⟩ := real.node
    have hlegal := legal_of_node hn c (by simp)
    have hnode : ∃ n, fs.node (cur ++ [c]) = some n ∧ ∀ target, n ≠ .symlink target := by
      cases cs with
      | nil => exact real.node
      | cons c' cs =>
        refine ⟨.dir, (real.way (cur ++ [c]) c' cs (by simp)).1, fun _ h => by cases h⟩
    obtain ⟨n', hn', hlink⟩ := hnode
    rw [walkWith, if_neg (not_not.2 hdir), if_neg hlegal.nonempty, if_neg (by simp [hsearch]),
      if_neg hlegal.dot, if_neg hlegal.dotDot, if_neg (Nat.not_lt.2 hlegal.short), hn']
    have hrest : fs.Real rights (cur ++ [c] ++ cs) := by
      rwa [List.append_assoc]
    have hgo := ih hrest
    rw [List.append_assoc] at hgo
    cases n' with
    | symlink target => exact absurd rfl (hlink target)
    | dir => exact hgo
    | file data => exact hgo
    | other => exact hgo

theorem walk_of_real {n : ℕ} {p : Path} (real : fs.Real rights p) :
    fs.walk rights n [] ([] :: p) = .ok p := by
  have hstep : ∀ follow, fs.walkWith rights follow [] ([] :: p) = .ok p := by
    intro follow
    rw [walkWith, if_neg (not_not.2 fs.root), if_pos rfl]
    exact walkWith_of_real real
  cases n with
  | zero => exact hstep _
  | succ n => exact hstep _

/-- The name of a real path resolves to it. -/
theorem resolve_spell {p : Path} (real : fs.Real rights p) : fs.resolve rights (spell p) = .ok p := by
  obtain ⟨n, hn, -⟩ := real.node
  rw [resolve, splitOn_spell fun c hc => (legal_of_node hn c hc).slash]
  exact walk_of_real real

/-- The entry that the name of a path in a real directory is about. -/
theorem parent_spell {d : Path} {c : Name} (real : fs.Real rights d) (dir : fs.node d = some .dir)
    (nonempty : c ≠ []) (slash : '/' ∉ c) : fs.parent rights (spell (d ++ [c])) =
      if !rights.search d then .error .EACCES
      else if c.length > NAME_MAX then .error .ENAMETOOLONG
      else .ok (d, c) := by
  have hreverse : (([] : Name) :: (d ++ [c])).reverse = c :: (([] : Name) :: d).reverse := by
    simp
  rw [parent, splitOn_spell (slash_notMem_child dir slash), parentFrom, hreverse,
    List.dropWhile_cons_of_neg (by simp [nonempty])]
  dsimp only
  rw [List.reverse_reverse, walk_of_real real]
  dsimp only
  rw [if_neg (not_not.2 dir)]

/-- A path name that ends with a slash denotes a directory. -/
theorem dir_of_walkWith {follow : Path → List Name → Except Errno Path}
    (hfollow : ∀ cur cs p, follow cur (cs ++ [[]]) = .ok p → fs.node p = some .dir)
    {cur : Path} {cs : List Name} {p : Path}
    (h : fs.walkWith rights follow cur (cs ++ [[]]) = .ok p) : fs.node p = some .dir := by
  induction cs generalizing cur with
  | nil =>
    rw [List.nil_append, walkWith, if_pos rfl] at h
    split_ifs at h with hdir
    obtain rfl := Except.ok.inj h
    exact not_not.1 hdir
  | cons c cs ih =>
    rw [List.cons_append] at h
    obtain ⟨-, ⟨-, hempty⟩ | ⟨-, ⟨-, hdot⟩ | ⟨-, hup⟩ | ⟨n, -, hdown⟩⟩⟩ := walkWith_cons_cases h
    · exact ih hempty
    · exact ih hdot
    · exact ih hup
    · rcases hdown with ⟨target, -, -, hlink⟩ | ⟨-, hdown⟩
      · rw [← List.append_assoc] at hlink
        exact hfollow _ _ p hlink
      · exact ih hdown

theorem dir_of_walk {n : ℕ} {cur : Path} {cs : List Name} {p : Path}
    (h : fs.walk rights n cur (cs ++ [[]]) = .ok p) : fs.node p = some .dir := by
  induction n generalizing cur cs p with
  | zero => exact dir_of_walkWith (fun _ _ _ hno => by cases hno) h
  | succ n ih => exact dir_of_walkWith (fun _ _ _ hgo => ih hgo) h

theorem dir_of_resolve {s : List Char} {p : Path}
    (h : fs.resolve rights (s ++ ['/']) = .ok p) : fs.node p = some .dir := by
  rw [resolve, splitOn_concat_slash] at h
  exact dir_of_walk h

theorem accessOk_spell {p : Path} (real : fs.Real rights p) :
    fs.accessOk rights (spell p) = true := by
  rw [accessOk, resolve_spell real]

/-! ## Changes -/

/-- What there is in the first tree is in the second. -/
def Keeps (fs fs' : FileSystem) : Prop := ∀ p n, fs.node p = some n → fs'.node p = some n

theorem keeps_refl (fs : FileSystem) : fs.Keeps fs := fun _ _ h => h

theorem Keeps.trans (h : fs.Keeps fs') (h' : fs'.Keeps fs'') : fs.Keeps fs'' :=
  fun p n hp => h' p n (h p n hp)

theorem Keeps.real {p : Path} (h : fs.Keeps fs') (real : fs.Real rights p) : fs'.Real rights p := by
  obtain ⟨n, hn, hlink⟩ := real.node
  refine ⟨fun q c r hp => ?_, n, h p n hn, hlink⟩
  obtain ⟨hdir, hsearch⟩ := real.way q c r hp
  exact ⟨h q _ hdir, hsearch⟩

theorem keeps_enter (fs : FileSystem) (d : Path) (c : Name) (n : Node) :
    fs.Keeps (fs.enter d c n) := by
  unfold enter
  split_ifs with h
  · intro p m hp
    have hne : p ≠ d ++ [c] := by
      rintro rfl
      rw [h.2.2] at hp
      cases hp
    exact (Function.update_of_ne hne _ _).trans hp
  · exact keeps_refl fs

theorem keeps_create (fs : FileSystem) (rights : Rights) (n : Node)
    (place : Except Errno (Path × Name)) : fs.Keeps (fs.create rights n place).2 := by
  unfold create
  rcases place with e | ⟨d, c⟩
  · exact keeps_refl fs
  · dsimp only
    split_ifs
    · exact keeps_refl fs
    · exact keeps_refl fs
    · exact keeps_enter fs d c n

/-- What is created was not there. -/
theorem create_new {n : Node} {place : Except Errno (Path × Name)} {p : Path}
    (h : fs.create rights n place = (.ok p, fs')) : fs.node p = none := by
  unfold create at h
  rcases place with e | ⟨d, c⟩
  · cases h
  · dsimp only at h
    split_ifs at h with hthere hmay
    · cases h
    · cases h
    · cases h
      rw [not_or, not_or, ne_eq, not_not] at hthere
      exact hthere.2.2

/-- A file can be created in this directory under this name. -/
structure CanCreate (fs : FileSystem) (rights : Rights) (d : Path) (c : Name) : Prop where
  search : rights.search d = true
  legal : Legal c
  new : fs.node (d ++ [c]) = none
  create : rights.create (d ++ [c]) = true

theorem openExcl_of_canCreate {d : Path} {c : Name} (real : fs.Real rights d)
    (dir : fs.node d = some .dir) (can : fs.CanCreate rights d c) :
    fs.openExcl rights (spell (d ++ [c])) =
      (.ok (d ++ [c]), fs.add d c (.file []) dir can.legal can.new) := by
  have hplace : fs.parent rights (spell (d ++ [c])) = .ok (d, c) := by
    rw [parent_spell real dir can.legal.nonempty can.legal.slash, if_neg (by simp [can.search]),
      if_neg (Nat.not_lt.2 can.legal.short)]
  have hthere : ¬(c = ['.'] ∨ c = ['.', '.'] ∨ fs.node (d ++ [c]) ≠ none) := by
    simp [can.legal.dot, can.legal.dotDot, can.new]
  rw [openExcl, hplace, FileSystem.create, if_neg hthere, if_neg (by simp [can.create]), enter,
    dif_pos ⟨dir, can.legal, can.new⟩]

/-- An exclusive creation that succeeds is one that can be done. -/
theorem canCreate_of_openExcl {d p : Path} {c : Name} (real : fs.Real rights d)
    (dir : fs.node d = some .dir) (nonempty : c ≠ []) (slash : '/' ∉ c)
    (h : fs.openExcl rights (spell (d ++ [c])) = (.ok p, fs')) : fs.CanCreate rights d c := by
  rw [openExcl, parent_spell real dir nonempty slash] at h
  unfold FileSystem.create at h
  split_ifs at h with hsearch hlong
  · cases h
  · cases h
  · dsimp only at h
    split_ifs at h with hthere hmay
    · cases h
    · cases h
    · rw [not_or, not_or, ne_eq, not_not] at hthere
      exact ⟨by simpa using hsearch, ⟨nonempty, hthere.1, hthere.2.1, slash, Nat.not_lt.1 hlong⟩,
        hthere.2.2, by simpa using hmay⟩

/-- A removal fails, or takes the entry that the path name is about. -/
theorem unlink_cases (fs : FileSystem) (rights : Rights) (s : List Char) :
    (∃ e, fs.unlink rights s = (some e, fs)) ∨
      ∃ d c, fs.parent rights s = .ok (d, c) ∧ fs.node (d ++ [c]) ≠ some .dir ∧
        rights.remove (d ++ [c]) = true ∧ (fs.unlink rights s).1 = none ∧
        (fs.unlink rights s).2.node = Function.update fs.node (d ++ [c]) none := by
  unfold unlink
  rcases fs.parent rights s with e | ⟨d, c⟩
  · exact Or.inl ⟨e, rfl⟩
  · dsimp only
    split_ifs with hnone hdir hmay
    · exact Or.inl ⟨_, rfl⟩
    · exact Or.inl ⟨_, rfl⟩
    · exact Or.inl ⟨_, rfl⟩
    · exact Or.inr ⟨d, c, rfl, hdir, by simpa using hmay, rfl, rfl⟩

theorem unlink_spell {d : Path} {c : Name} {data : List UInt8} (real : fs.Real rights d)
    (search : rights.search d = true) (file : fs.node (d ++ [c]) = some (.file data))
    (remove : rights.remove (d ++ [c]) = true) :
    (fs.unlink rights (spell (d ++ [c]))).1 = none ∧
      (fs.unlink rights (spell (d ++ [c]))).2.node (d ++ [c]) = none := by
  have hlegal := fs.legal d c _ file
  have hplace : fs.parent rights (spell (d ++ [c])) = .ok (d, c) := by
    rw [parent_spell real (fs.tree d c _ file) hlegal.nonempty hlegal.slash,
      if_neg (by simp [search]), if_neg (Nat.not_lt.2 hlegal.short)]
  have hnotDir : fs.node (d ++ [c]) ≠ some .dir := by
    rw [file]
    exact fun h => by cases h
  have hunlink : fs.unlink rights (spell (d ++ [c])) = (none, fs.erase (d ++ [c]) hnotDir) := by
    rw [unlink, hplace]
    dsimp only
    rw [if_neg (by simp [file]), dif_neg hnotDir, if_neg (by simp [remove])]
  rw [hunlink]
  exact ⟨rfl, Function.update_self _ _ _⟩

theorem truncate_of_ne {p q : Path} (len : ℕ) (h : q ≠ p) :
    (fs.truncate p len).node q = fs.node q := by
  unfold truncate
  split
  · exact Function.update_of_ne h _ _
  · rfl

theorem put_of_ne {p q : Path} (contents : List UInt8) (h : q ≠ p) :
    (fs.put p contents).node q = fs.node q := by
  unfold put
  split
  · exact Function.update_of_ne h _ _
  · rfl

theorem put_self {p : Path} {data : List UInt8} (contents : List UInt8)
    (file : fs.node p = some (.file data)) : (fs.put p contents).node p = some (.file contents) := by
  unfold put
  split
  · exact Function.update_self ..
  next h => exact absurd file (h data)

/-- Only the contents of files change. -/
theorem put_cases (fs : FileSystem) (p : Path) (contents : List UInt8) (q : Path) :
    (fs.put p contents).node q = fs.node q ∨
      (∃ data, fs.node q = some (.file data)) ∧
        (fs.put p contents).node q = some (.file contents) := by
  by_cases hq : q = p
  · subst hq
    by_cases file : ∃ data, fs.node q = some (.file data)
    · obtain ⟨data, hdata⟩ := file
      exact Or.inr ⟨⟨data, hdata⟩, put_self contents hdata⟩
    · left
      unfold put
      split
      next data h => exact absurd ⟨data, h⟩ file
      · rfl
  · exact Or.inl (put_of_ne contents hq)

end FileSystem

end Posix
