import Tesd.Lib.PathWalks

/-!
# Entries of a real directory

What the system calls do with the name of an entry of a real directory, by what is there and what
the caller may do.  Removing an entry and making it again changes no directory.
-/

namespace Posix

namespace FileSystem

variable {fs fs' : FileSystem} {rights : Rights} {d p : Path} {c : Name}

/-! ## Looking the entry up -/

/-- What can be an entry of a real directory, but for the length of its name. -/
structure Entry (fs : FileSystem) (rights : Rights) (d : Path) (c : Name) : Prop where
  real : fs.Real rights d
  dir : fs.node d = some .dir
  nonempty : c ≠ []
  dot : c ≠ ['.']
  dotDot : c ≠ ['.', '.']
  slash : '/' ∉ c

/-- The entry can be looked up. -/
structure Lookable (rights : Rights) (d : Path) (c : Name) : Prop where
  search : rights.search d = true
  short : c.length ≤ NAME_MAX

/-- The walk to a real directory, and on from there. -/
theorem walk_real_append {n : ℕ} {cur : Path} {cs rest : List Name}
    (real : fs.Real rights (cur ++ cs)) (dir : fs.node (cur ++ cs) = some .dir) :
    fs.walk rights n cur (cs ++ rest) = fs.walk rights n (cur ++ cs) rest := by
  induction cs generalizing cur with
  | nil => rw [List.append_nil, List.nil_append]
  | cons c cs ih =>
    obtain ⟨hcur, hsearch⟩ := real.way cur c cs rfl
    have hlegal := legal_of_node dir c (by simp)
    have hnext : fs.node (cur ++ [c]) = some .dir := by
      cases cs with
      | nil => exact dir
      | cons c' cs => exact (real.way (cur ++ [c]) c' cs (by simp)).1
    rw [List.cons_append, walk_cons, if_neg (not_not.2 hcur), if_neg hlegal.nonempty,
      if_neg (by simp [hsearch]), if_neg hlegal.dot, if_neg hlegal.dotDot,
      if_neg (Nat.not_lt.2 hlegal.short), hnext]
    dsimp only
    rw [ih (by rwa [List.append_assoc]) (by rwa [List.append_assoc]), List.append_assoc,
      List.singleton_append]

/-- Without symbolic links on the way, a walk beyond a path gets to it, or nowhere. -/
theorem real_or_lost {n : ℕ} {cur : Path} {cs rest : List Name} (real : fs.Real rights cur)
    (dir : fs.node cur = some .dir) (names : ∀ c ∈ cs, c ≠ [] ∧ c ≠ ['.'] ∧ c ≠ ['.', '.'])
    (plain : ∀ pre post target, cs = pre ++ post → fs.node (cur ++ pre) ≠ some (.symlink target))
    (more : rest ≠ []) : (fs.Real rights (cur ++ cs) ∧ fs.node (cur ++ cs) = some .dir) ∨
      ∃ err, fs.walk rights n cur (cs ++ rest) = .error err := by
  induction cs generalizing cur with
  | nil => exact Or.inl (by rw [List.append_nil]; exact ⟨real, dir⟩)
  | cons c cs ih =>
    obtain ⟨hne, hdot, hdots⟩ := names c List.mem_cons_self
    rw [List.cons_append, walk_cons, if_neg (not_not.2 dir), if_neg hne]
    by_cases search : rights.search cur = true
    swap
    · exact Or.inr ⟨_, if_pos (by simp [search])⟩
    rw [if_neg (by simp [search]), if_neg hdot, if_neg hdots]
    by_cases short : c.length > NAME_MAX
    · exact Or.inr ⟨_, if_pos short⟩
    rw [if_neg short]
    cases hnode : fs.node (cur ++ [c]) with
    | none => exact Or.inr ⟨_, rfl⟩
    | some x =>
      -- from what is not a directory, the walk does not go on
      have hstop : fs.node (cur ++ [c]) ≠ some .dir →
          ∃ err, fs.walk rights n (cur ++ [c]) (cs ++ rest) = .error err := by
        intro hno
        obtain ⟨y, ys, hys⟩ := List.exists_cons_of_ne_nil (List.append_ne_nil_of_right_ne_nil cs more)
        rw [hys, walk_cons, if_pos hno]
        exact ⟨_, rfl⟩
      cases x with
      | dir =>
        have hchild := real_child real dir search hnode fun _ h => by cases h
        have hrest := ih hchild hnode (fun c' hc' => names c' (List.mem_cons_of_mem c hc'))
          fun pre post target heq => by
            rw [List.append_assoc, List.singleton_append]
            exact plain (c :: pre) post target (by rw [heq, List.cons_append])
        rwa [List.append_assoc, List.singleton_append] at hrest
      | file data => exact Or.inr (hstop (by simp [hnode]))
      | other => exact Or.inr (hstop (by simp [hnode]))
      | symlink target => exact absurd hnode (plain [c] cs target rfl)

theorem splitOn_entry (e : Entry fs rights d c) :
    (spell (d ++ [c])).splitOn '/' = [] :: (d ++ [c]) :=
  splitOn_spell (slash_notMem_child e.dir e.slash)

theorem resolve_entry (e : Entry fs rights d c) : fs.resolve rights (spell (d ++ [c])) =
    if !rights.search d then .error .EACCES
    else if c.length > NAME_MAX then .error .ENAMETOOLONG
    else
      match fs.node (d ++ [c]) with
      | none => .error .ENOENT
      | some (.symlink target) =>
        if target = [] then .error .ENOENT
        else fs.walk rights (SYMLOOP_MAX - 1) (linkStart d target) (target.splitOn '/' ++ [])
      | some _ => .ok (d ++ [c]) := by
  have hwalk : fs.walk rights SYMLOOP_MAX [] (d ++ [c]) = fs.walk rights SYMLOOP_MAX d [c] :=
    walk_real_append e.real e.dir
  have hnil : ∀ n p, fs.walk rights n p [] = .ok p := fun n p => by cases n <;> rfl
  rw [resolve, splitOn_entry e, walk_cons, if_neg (not_not.2 fs.root), if_pos rfl, hwalk,
    walk_cons, if_neg (not_not.2 e.dir), if_neg e.nonempty, if_neg e.dot,
    if_neg e.dotDot]
  rcases fs.node (d ++ [c]) with _ | ⟨_ | _ | _ | _⟩
  all_goals simp only [hnil, SYMLOOP_MAX, Nat.add_one_sub_one]

theorem resolve_none (e : Entry fs rights d c) (look : Lookable rights d c)
    (none : fs.node (d ++ [c]) = none) :
    fs.resolve rights (spell (d ++ [c])) = .error .ENOENT := by
  rw [resolve_entry e, if_neg (by simp [look.search]), if_neg (Nat.not_lt.2 look.short), none]

theorem resolve_some (e : Entry fs rights d c) (look : Lookable rights d c) {n : Node}
    (there : fs.node (d ++ [c]) = some n) (notLink : ∀ target, n ≠ .symlink target) :
    fs.resolve rights (spell (d ++ [c])) = .ok (d ++ [c]) := by
  rw [resolve_entry e, if_neg (by simp [look.search]), if_neg (Nat.not_lt.2 look.short), there]
  cases n with
  | symlink target => exact absurd rfl (notLink target)
  | dir => rfl
  | file data => rfl
  | other => rfl

theorem resolve_of_not_lookable (e : Entry fs rights d c) (h : ¬Lookable rights d c) :
    ∃ err, err ≠ .ENOENT ∧ fs.resolve rights (spell (d ++ [c])) = .error err := by
  rw [resolve_entry e]
  by_cases hsearch : rights.search d = true
  · have hlong : c.length > NAME_MAX := by
      by_contra hshort
      exact h ⟨hsearch, Nat.not_lt.1 hshort⟩
    exact ⟨.ENAMETOOLONG, by simp, by rw [if_neg (by simp [hsearch]), if_pos hlong]⟩
  · exact ⟨.EACCES, by simp, by rw [if_pos (by simp [hsearch])]⟩

theorem parent_entry (e : Entry fs rights d c) (look : Lookable rights d c) :
    fs.parent rights (spell (d ++ [c])) = .ok (d, c) := by
  rw [parent_spell e.real e.dir e.nonempty e.slash, if_neg (by simp [look.search]),
    if_neg (Nat.not_lt.2 look.short)]

theorem parent_of_not_lookable (e : Entry fs rights d c) (h : ¬Lookable rights d c) :
    ∃ err, fs.parent rights (spell (d ++ [c])) = .error err := by
  rw [parent_spell e.real e.dir e.nonempty e.slash]
  by_cases hsearch : rights.search d = true
  · have hlong : c.length > NAME_MAX := by
      by_contra hshort
      exact h ⟨hsearch, Nat.not_lt.1 hshort⟩
    exact ⟨_, by rw [if_neg (by simp [hsearch]), if_pos hlong]⟩
  · exact ⟨_, by rw [if_pos (by simp [hsearch])]⟩

/-! ## Removing it and making it -/

theorem unlink_entry (e : Entry fs rights d c) (look : Lookable rights d c) {n : Node}
    (there : fs.node (d ++ [c]) = some n) (notDir : n ≠ .dir)
    (remove : rights.remove (d ++ [c]) = true) : (fs.unlink rights (spell (d ++ [c]))).1 = none ∧
      (fs.unlink rights (spell (d ++ [c]))).2.node = Function.update fs.node (d ++ [c]) none := by
  have hdir : fs.node (d ++ [c]) ≠ some .dir := by
    rw [there]
    exact fun h => notDir (Option.some.inj h)
  rw [unlink, parent_entry e look]
  dsimp only
  rw [if_neg (by simp [there]), dif_neg hdir, if_neg (by simp [remove])]
  exact ⟨rfl, rfl⟩

theorem unlink_refused (e : Entry fs rights d c)
    (h : ¬(Lookable rights d c ∧ rights.remove (d ++ [c]) = true ∧ fs.node (d ++ [c]) ≠ none ∧
      fs.node (d ++ [c]) ≠ some .dir)) :
    (fs.unlink rights (spell (d ++ [c]))).1 ≠ none ∧ (fs.unlink rights (spell (d ++ [c]))).2 = fs := by
  by_cases look : Lookable rights d c
  · rw [unlink, parent_entry e look]
    dsimp only
    split_ifs with hnone hdir hremove
    · exact ⟨by simp, rfl⟩
    · exact ⟨by simp, rfl⟩
    · exact ⟨by simp, rfl⟩
    · exact absurd ⟨look, by simpa using hremove, hnone, hdir⟩ h
  · obtain ⟨err, herr⟩ := parent_of_not_lookable e look
    rw [unlink, herr]
    exact ⟨by simp, rfl⟩

/-- A new node at a place where there is nothing. -/
theorem create_of_none {n : Node} (dir : fs.node d = some .dir) (legal : Legal c)
    (none : fs.node (d ++ [c]) = none) (create : rights.create (d ++ [c]) = true) :
    (fs.create rights n (.ok (d, c))).1 = .ok (d ++ [c]) ∧
      (fs.create rights n (.ok (d, c))).2.node = Function.update fs.node (d ++ [c]) (some n) := by
  rw [FileSystem.create, if_neg (by simp [legal.dot, legal.dotDot, none]),
    if_neg (by simp [create]), enter, dif_pos ⟨dir, legal, none⟩]
  exact ⟨rfl, rfl⟩

theorem create_refused {n : Node}
    (h : ¬(fs.node (d ++ [c]) = none ∧ rights.create (d ++ [c]) = true)) :
    ∃ err, fs.create rights n (.ok (d, c)) = (.error err, fs) := by
  rw [FileSystem.create]
  split_ifs with hthere hcreate
  · exact ⟨_, rfl⟩
  · exact ⟨_, rfl⟩
  · rw [not_or, not_or, ne_eq, not_not] at hthere
    exact absurd ⟨hthere.2.2, by simpa using hcreate⟩ h

theorem legal_of_entry (e : Entry fs rights d c) (look : Lookable rights d c) : Legal c :=
  ⟨e.nonempty, e.dot, e.dotDot, e.slash, look.short⟩

/-- Where a file is created by the name of an entry that is not a symbolic link. -/
theorem createdAt_entry (e : Entry fs rights d c) (look : Lookable rights d c)
    (notLink : ∀ target, fs.node (d ++ [c]) ≠ some (.symlink target)) :
    fs.createdAt rights SYMLOOP_MAX [] ((spell (d ++ [c])).splitOn '/') = .ok (d, c) := by
  have hplace := parent_entry e look
  rw [parent] at hplace
  unfold createdAt
  rw [hplace]
  dsimp only
  split
  next h _ => exact absurd h (notLink _)
  next h _ => exact absurd h (notLink _)
  · rfl

/-- Opening by a name that there is nothing at creates the file. -/
theorem openCreat_none (e : Entry fs rights d c) (look : Lookable rights d c)
    (none : fs.node (d ++ [c]) = none) : fs.openCreat rights (spell (d ++ [c])) =
      fs.create rights (.file []) (.ok (d, c)) := by
  rw [openCreat, resolve_none e look none]
  dsimp only
  rw [createdAt_entry e look fun target h => by rw [none] at h; cases h]

theorem openCreat_of_not_lookable (e : Entry fs rights d c) (h : ¬Lookable rights d c) :
    ∃ err, fs.openCreat rights (spell (d ++ [c])) = (.error err, fs) := by
  obtain ⟨err, hne, herr⟩ := resolve_of_not_lookable e h
  rw [openCreat, herr]
  cases err with
  | ENOENT => exact absurd rfl hne
  | _ => exact ⟨_, rfl⟩

/-- Without following a link to what is not there, nothing is created where something is. -/
theorem create_place (fs : FileSystem) (rights : Rights) (n : Node)
    (place : Except Errno (Path × Name)) :
    (∃ err, fs.create rights n place = (.error err, fs)) ∨
      ∃ d c, fs.create rights n place = (.ok (d ++ [c]), fs.enter d c n) ∧
        fs.node (d ++ [c]) = none ∧ rights.create (d ++ [c]) = true := by
  rcases place with err | ⟨d, c⟩
  · exact Or.inl ⟨err, rfl⟩
  · rw [FileSystem.create]
    split_ifs with hthere hcreate
    · exact Or.inl ⟨_, rfl⟩
    · exact Or.inl ⟨_, rfl⟩
    · rw [not_or, not_or, ne_eq, not_not] at hthere
      exact Or.inr ⟨d, c, rfl, hthere.2.2, by simpa using hcreate⟩

/-- What an entry can be that a name without slashes is about. -/
theorem parentFrom_ok {start : Path} {cs : List Name} (h : fs.parentFrom rights start cs = .ok (d, c))
    (slash : ∀ x ∈ cs, '/' ∉ x) :
    fs.node d = some .dir ∧ c ≠ [] ∧ '/' ∉ c ∧ c.length ≤ NAME_MAX := by
  unfold parentFrom at h
  split at h
  · cases h
  next x rest hx =>
    have hmem : x ∈ cs := List.mem_reverse.1 ((List.dropWhile_suffix _).subset (by rw [hx]; simp))
    have hne : x ≠ [] := by
      have := List.head?_dropWhile_not (fun c => decide (c = ([] : Name))) cs.reverse
      rw [hx] at this
      simpa using this
    split at h
    · cases h
    · split_ifs at h with hdir hsearch hlong
      obtain ⟨rfl, rfl⟩ := Prod.mk.inj (Except.ok.inj h)
      exact ⟨not_not.1 hdir, hne, slash x hmem, Nat.not_lt.1 hlong⟩

theorem createdAt_ok {n : ℕ} {start : Path} {cs : List Name}
    (h : fs.createdAt rights n start cs = .ok (d, c)) (slash : ∀ x ∈ cs, '/' ∉ x) :
    fs.node d = some .dir ∧ c ≠ [] ∧ '/' ∉ c ∧ c.length ≤ NAME_MAX := by
  induction n generalizing start cs with
  | zero =>
    unfold createdAt at h
    split at h
    · cases h
    next d' c' hplace =>
      split at h
      · cases h
      next hn => cases hn
      · obtain ⟨rfl, rfl⟩ := Prod.mk.inj (Except.ok.inj h)
        exact parentFrom_ok hplace slash
  | succ n ih =>
    unfold createdAt at h
    split at h
    · cases h
    next d' c' hplace =>
      split at h
      next hn => cases hn
      next n' hn =>
        cases hn
        exact ih h fun x hx => splitOn_slash hx
      · obtain ⟨rfl, rfl⟩ := Prod.mk.inj (Except.ok.inj h)
        exact parentFrom_ok hplace slash

/-- Opening by a name that leads nowhere creates a file that was not there. -/
theorem openCreat_created {s : List Char} {fs' : FileSystem} (access : fs.accessOk rights s = false)
    (h : fs.openCreat rights s = (.ok p, fs')) :
    fs.node p = none ∧ rights.create p = true ∧ fs'.node p = some (.file []) := by
  unfold openCreat at h
  split at h
  next q hq =>
    rw [accessOk, hq] at access
    cases access
  next hq =>
    cases hat : fs.createdAt rights SYMLOOP_MAX [] (s.splitOn '/') with
    | error err =>
      rw [hat] at h
      cases h
    | ok place =>
      obtain ⟨d, c⟩ := place
      rw [hat] at h
      obtain ⟨hdir, hne, hslash, hshort⟩ := createdAt_ok hat fun x hx => splitOn_slash hx
      unfold FileSystem.create at h
      dsimp only at h
      split_ifs at h with hthere hcreate
      · cases h
      · cases h
      · rw [not_or, not_or, ne_eq, not_not] at hthere
        obtain ⟨hp, rfl⟩ := Prod.mk.inj h
        obtain rfl := Except.ok.inj hp
        refine ⟨hthere.2.2, by simpa using hcreate, ?_⟩
        rw [enter, dif_pos ⟨hdir, ⟨hne, hthere.1, hthere.2.1, hslash, hshort⟩, hthere.2.2⟩]
        exact Function.update_self _ _ _
  · cases h

/-- A failed opening changes nothing. -/
theorem openCreat_error {s : List Char} {fs' : FileSystem} {err : Errno}
    (h : fs.openCreat rights s = (.error err, fs')) : fs' = fs := by
  unfold openCreat at h
  split at h
  · split_ifs at h <;> cases h <;> rfl
  · rcases create_place fs rights (.file [])
      (fs.createdAt rights SYMLOOP_MAX [] (s.splitOn '/')) with ⟨err', herr⟩ | ⟨d, c, hok, -⟩
    · rw [herr] at h
      cases h
      rfl
    · rw [hok] at h
      cases h
  · cases h
    rfl

/-! ## Directories -/

/-- A real directory stays one while no directory is removed. -/
theorem real_of_dirs (h : ∀ p, fs.node p = some .dir → fs'.node p = some .dir)
    (real : fs.Real rights d) (dir : fs.node d = some .dir) : fs'.Real rights d := by
  refine ⟨fun q c r hp => ?_, .dir, h d dir, fun _ hlink => by cases hlink⟩
  obtain ⟨hdir, hsearch⟩ := real.way q c r hp
  exact ⟨h q hdir, hsearch⟩

theorem entry_of_dirs (h : ∀ p, fs.node p = some .dir → fs'.node p = some .dir)
    (e : Entry fs rights d c) : Entry fs' rights d c :=
  ⟨real_of_dirs h e.real e.dir, h d e.dir, e.nonempty, e.dot, e.dotDot, e.slash⟩

theorem dirs_unlink (fs : FileSystem) (rights : Rights) (s : List Char) {p : Path}
    (dir : fs.node p = some .dir) : (fs.unlink rights s).2.node p = some .dir := by
  rcases unlink_cases fs rights s with ⟨err, herr⟩ | ⟨d, c, -, hne, -, -, hnode⟩
  · rw [herr]
    exact dir
  · rw [hnode, Function.update_of_ne]
    · exact dir
    · rintro rfl
      exact hne dir

end FileSystem

end Posix
