import Tesd.Lib.PathWalks

/-!
# Making the directories of a path name

The directories of a path name are made one name after the other: a name that leads to a directory
is followed, and where there is nothing a directory is made.  `Paves` says where this gets to, and
`mkdir` does one step of it.
-/

namespace Posix

namespace FileSystem

/-- How far the making of directories has got: the length of the name up to there, the symbolic
links that may still be followed, the directory and the tree. -/
structure Place where
  len : ℕ
  links : ℕ
  dir : Path
  fs : FileSystem

namespace Place

/-- The place after a name that leads to the directory `d`. -/
def past (s : Place) (c : Name) (n : ℕ) (d : Path) : Place := ⟨s.len + (c.length + 1), n, d, s.fs⟩

/-- The place after a name that a directory has been made for. -/
def made (s : Place) (c : Name) : Place :=
  ⟨s.len + (c.length + 1), s.links, s.dir ++ [c], s.fs.enter s.dir c .dir⟩

/-- The place is the directory that a path name, with a slash at its end, leads to. -/
structure At (rights : Rights) (s : Place) (name : List Char) : Prop where
  len : s.len = name.length
  slash : ∃ x, name = x ++ ['/']
  walks : Walks s.fs rights SYMLOOP_MAX [] (name.splitOn '/') s.links s.dir

/-- There is room for a name and the slash after it. -/
def Room (s : Place) (c : Name) : Prop := s.len + (c.length + 1) < PATH_MAX

/-- A directory can be made here. -/
structure CanMake (rights : Rights) (s : Place) (c : Name) : Prop where
  room : s.Room c
  can : s.fs.CanCreate rights s.dir c

end Place

/-- Something is here that a directory can not be made for, and that does not lead to one. -/
structure Place.Blocks (rights : Rights) (s : Place) (c : Name) : Prop where
  room : s.Room c
  search : rights.search s.dir = true
  there : s.fs.node (s.dir ++ [c]) ≠ none
  lost : ∀ n d, ¬ Walks s.fs rights s.links s.dir [c, []] n d

/-- The names lead from one place to another, with a directory made where there is nothing. -/
inductive Paves (rights : Rights) : Place → List Name → Place → Prop
  | nil (s : Place) : Paves rights s [] s
  | empty {s t : Place} {cs : List Name} (rest : Paves rights s cs t) : Paves rights s ([] :: cs) t
  | walk {s t : Place} {c : Name} {cs : List Name} {n : ℕ} {d : Path} (nonempty : c ≠ [])
      (room : s.Room c) (walks : Walks s.fs rights s.links s.dir [c, []] n d)
      (rest : Paves rights (s.past c n d) cs t) : Paves rights s (c :: cs) t
  | make {s t : Place} {c : Name} {cs : List Name} (can : s.CanMake rights c)
      (rest : Paves rights (s.made c) cs t) : Paves rights s (c :: cs) t

variable {fs : FileSystem} {rights : Rights} {s t : Place} {c : Name} {cs xs : List Name}
  {n : ℕ} {d p : Path} {name : List Char}

/-! ## Names with a slash at the end -/

theorem splitOn_child (x : List Char) (h : '/' ∉ c) :
    (x ++ ['/'] ++ c).splitOn '/' = x.splitOn '/' ++ [c] := by
  rw [List.append_assoc, List.singleton_append, List.splitOn_append_cons_self,
    List.splitOn_eq_singleton h]

theorem splitOn_child_slash (x : List Char) (h : '/' ∉ c) :
    (x ++ ['/'] ++ c ++ ['/']).splitOn '/' = x.splitOn '/' ++ [c, []] := by
  rw [splitOn_concat_slash, splitOn_child x h, List.append_assoc, List.singleton_append]

/-- The entry that the name of a directory to be made is about. -/
theorem parent_child (x : List Char) (nonempty : c ≠ []) (slash : '/' ∉ c) :
    fs.parent rights (x ++ ['/'] ++ c ++ ['/']) =
      match fs.walk rights SYMLOOP_MAX [] (x.splitOn '/') with
      | .error e => .error e
      | .ok d =>
        if fs.node d ≠ some .dir then .error .ENOTDIR
        else if !rights.search d then .error .EACCES
        else if c.length > NAME_MAX then .error .ENAMETOOLONG
        else .ok (d, c) := by
  have hreverse : (x.splitOn '/' ++ [c, []]).reverse = [] :: c :: (x.splitOn '/').reverse := by
    simp
  rw [parent, splitOn_child_slash x slash, parentFrom, hreverse,
    List.dropWhile_cons_of_pos (by simp), List.dropWhile_cons_of_neg (by simpa using nonempty)]
  dsimp only
  generalize hcs : (x.splitOn '/').reverse.reverse = cs
  rw [List.reverse_reverse] at hcs
  subst hcs
  rfl

/-- Below a name that leads nowhere, nothing is made and nothing is found. -/
theorem mkdir_of_lost (lost : ∀ q, fs.resolve rights name ≠ .ok q) (ends : ∃ x, name = x ++ ['/'])
    (nonempty : c ≠ []) (slash : '/' ∉ c) :
    ∃ e, fs.mkdir rights (name ++ c ++ ['/']) = (.error e, fs) ∧ e ≠ .EEXIST := by
  obtain ⟨x, rfl⟩ := ends
  rw [mkdir, parent_child x nonempty slash]
  cases hwalk : fs.walk rights SYMLOOP_MAX [] (x.splitOn '/') with
  | error e =>
    refine ⟨e, rfl, ?_⟩
    rintro rfl
    exact walk_ne_exists hwalk
  | ok d =>
    have hdir : fs.node d ≠ some .dir := by
      intro dir
      obtain ⟨m, walks⟩ := walk_eq_ok_iff.1 hwalk
      apply lost d
      rw [resolve, splitOn_concat_slash, walk_eq_ok_iff]
      exact ⟨m, walks_concat_empty_iff.2 ⟨walks, dir⟩⟩
    dsimp only
    rw [if_pos hdir]
    exact ⟨.ENOTDIR, rfl, by decide⟩

namespace Place

/-! ## One directory -/

theorem At.resolve (h : s.At rights name) : s.fs.resolve rights name = .ok s.dir :=
  walk_of_walks h.walks

theorem At.dir (h : s.At rights name) : s.fs.node s.dir = some .dir := by
  obtain ⟨x, rfl⟩ := h.slash
  exact dir_of_resolve h.resolve

theorem At.parent (h : s.At rights name) (nonempty : c ≠ []) (slash : '/' ∉ c) :
    s.fs.parent rights (name ++ c ++ ['/']) =
      if !rights.search s.dir then .error .EACCES
      else if c.length > NAME_MAX then .error .ENAMETOOLONG
      else .ok (s.dir, c) := by
  have hdir := h.dir
  have walks := h.walks
  obtain ⟨x, rfl⟩ := h.slash
  rw [splitOn_concat_slash, walks_concat_empty_iff] at walks
  rw [parent_child x nonempty slash, walk_of_walks walks.1]
  dsimp only
  rw [if_neg (not_not.2 hdir)]

/-- Where the name of a directory to be made leads. -/
theorem At.resolve_child (h : s.At rights name) (slash : '/' ∉ c) :
    s.fs.resolve rights (name ++ c ++ ['/']) = .ok d ↔
      ∃ n, Walks s.fs rights s.links s.dir [c, []] n d := by
  have walks := h.walks
  obtain ⟨x, rfl⟩ := h.slash
  rw [splitOn_concat_slash, walks_concat_empty_iff] at walks
  rw [FileSystem.resolve, splitOn_child_slash x slash, walk_eq_ok_iff]
  refine exists_congr fun n => ?_
  rw [walks_append_iff]
  constructor
  · rintro ⟨k, q, hfirst, hlast⟩
    obtain ⟨rfl, rfl⟩ := walks_unique walks.1 hfirst
    exact hlast
  · exact fun hlast => ⟨s.links, s.dir, walks.1, hlast⟩

theorem At.past (h : s.At rights name) (slash : '/' ∉ c)
    (walks : Walks s.fs rights s.links s.dir [c, []] n d) :
    (s.past c n d).At rights (name ++ c ++ ['/']) := by
  refine ⟨?_, ⟨_, rfl⟩, ?_⟩
  · rw [Place.past, h.len, List.length_append, List.length_append, List.length_singleton]
    dsimp only
    rw [Nat.add_assoc]
  · have hname := h.walks
    obtain ⟨x, rfl⟩ := h.slash
    rw [splitOn_concat_slash, walks_concat_empty_iff] at hname
    rw [splitOn_child_slash x slash]
    exact walks_append_iff.2 ⟨_, _, hname.1, walks⟩

theorem node_made (dir : s.fs.node s.dir = some .dir) (can : s.fs.CanCreate rights s.dir c) :
    (s.made c).fs.node (s.dir ++ [c]) = some .dir := by
  have henter : s.fs.enter s.dir c .dir = s.fs.add s.dir c .dir dir can.legal can.new :=
    dif_pos ⟨dir, can.legal, can.new⟩
  rw [made, henter]
  exact Function.update_self _ _ _

theorem node_made_of_ne (h : p ≠ s.dir ++ [c]) : (s.made c).fs.node p = s.fs.node p := by
  unfold made enter
  dsimp only
  split_ifs
  · exact Function.update_of_ne h _ _
  · rfl

theorem keeps_made (s : Place) (c : Name) : s.fs.Keeps (s.made c).fs :=
  keeps_enter s.fs s.dir c .dir

theorem At.made (h : s.At rights name) (can : s.fs.CanCreate rights s.dir c) :
    (s.made c).At rights (name ++ c ++ ['/']) := by
  have hnode := node_made h.dir can
  refine ⟨?_, ⟨_, rfl⟩, ?_⟩
  · rw [Place.made, h.len, List.length_append, List.length_append, List.length_singleton]
    dsimp only
    rw [Nat.add_assoc]
  · have hname := h.walks
    obtain ⟨x, rfl⟩ := h.slash
    rw [splitOn_concat_slash, walks_concat_empty_iff] at hname
    rw [splitOn_child_slash x can.legal.slash]
    refine walks_append_iff.2 ⟨_, _, (keeps_made s c).walks hname.1, ?_⟩
    exact .entry can.search hnode (fun _ h => by cases h) (.empty hnode (.nil _ _))

theorem At.mkdir_of_canCreate (h : s.At rights name) (can : s.fs.CanCreate rights s.dir c) :
    s.fs.mkdir rights (name ++ c ++ ['/']) = (.ok (s.dir ++ [c]), (s.made c).fs) := by
  have hthere : ¬(c = ['.'] ∨ c = ['.', '.'] ∨ s.fs.node (s.dir ++ [c]) ≠ none) := by
    simp [can.legal.dot, can.legal.dotDot, can.new]
  rw [mkdir, h.parent can.legal.nonempty can.legal.slash, if_neg (by simp [can.search]),
    if_neg (Nat.not_lt.2 can.legal.short), FileSystem.create, if_neg hthere,
    if_neg (by simp [can.create]), Place.made]

/-- What can not be made leaves the tree as it is. -/
theorem At.mkdir_of_not_canCreate (h : s.At rights name) (nonempty : c ≠ []) (slash : '/' ∉ c)
    (can : ¬ s.fs.CanCreate rights s.dir c) :
    ∃ e, s.fs.mkdir rights (name ++ c ++ ['/']) = (.error e, s.fs) := by
  rw [mkdir, h.parent nonempty slash]
  by_cases hsearch : (!rights.search s.dir) = true
  · rw [if_pos hsearch]
    exact ⟨_, rfl⟩
  rw [if_neg hsearch]
  by_cases hlong : c.length > NAME_MAX
  · rw [if_pos hlong]
    exact ⟨_, rfl⟩
  rw [if_neg hlong, FileSystem.create]
  split_ifs with hthere hmay
  · exact ⟨_, rfl⟩
  · exact ⟨_, rfl⟩
  · refine absurd ⟨by simpa using hsearch, ?_, ?_, by simpa using hmay⟩ can
    · rw [not_or, not_or] at hthere
      exact ⟨nonempty, hthere.1, hthere.2.1, slash, Nat.not_lt.1 hlong⟩
    · rw [not_or, not_or, ne_eq, not_not] at hthere
      exact hthere.2.2

theorem At.mkdir_of_walks (h : s.At rights name) (nonempty : c ≠ []) (slash : '/' ∉ c)
    (walks : Walks s.fs rights s.links s.dir [c, []] n d) :
    s.fs.mkdir rights (name ++ c ++ ['/']) = (.error .EEXIST, s.fs) := by
  have hfound : rights.search s.dir = true ∧ ¬ c.length > NAME_MAX ∧
      (c = ['.'] ∨ c = ['.', '.'] ∨ s.fs.node (s.dir ++ [c]) ≠ none) := by
    generalize s.links = m at walks
    cases walks with
    | empty => exact absurd rfl nonempty
    | dot _ search _ => exact ⟨search, by decide, Or.inl rfl⟩
    | up _ search _ => exact ⟨search, by decide, Or.inr (Or.inl rfl)⟩
    | entry search there _ _ =>
      refine ⟨search, Nat.not_lt.2 (s.fs.legal _ _ _ there).short, Or.inr (Or.inr ?_)⟩
      rw [there]
      exact fun h => by cases h
    | link search there _ _ =>
      refine ⟨search, Nat.not_lt.2 (s.fs.legal _ _ _ there).short, Or.inr (Or.inr ?_)⟩
      rw [there]
      exact fun h => by cases h
  obtain ⟨hsearch, hshort, hthere⟩ := hfound
  rw [mkdir, h.parent nonempty slash, if_neg (by simp [hsearch]), if_neg hshort,
    FileSystem.create, if_pos hthere]

/-- The names of the directory itself and of the one above it lead to a directory. -/
theorem At.walks_dot (h : s.At rights name) (search : rights.search s.dir = true)
    (dots : c = ['.'] ∨ c = ['.', '.']) : ∃ n d, Walks s.fs rights s.links s.dir [c, []] n d := by
  have hdir := h.dir
  have hup : s.fs.node s.dir.dropLast = some .dir := by
    rcases List.eq_nil_or_concat' s.dir with hnil | ⟨d, c, hd⟩
    · rw [hnil]
      exact s.fs.root
    · rw [hd] at hdir ⊢
      rw [List.dropLast_concat]
      exact s.fs.tree d c .dir hdir
  rcases dots with rfl | rfl
  · exact ⟨_, _, .dot hdir search (.empty hdir (.nil _ _))⟩
  · exact ⟨_, _, .up hdir search (.empty hup (.nil _ _))⟩

theorem At.mkdir_of_blocks (h : s.At rights name) (blocks : s.Blocks rights c) :
    s.fs.mkdir rights (name ++ c ++ ['/']) = (.error .EEXIST, s.fs) := by
  obtain ⟨n, there⟩ := Option.ne_none_iff_exists'.1 blocks.there
  have hlegal := s.fs.legal s.dir c n there
  rw [mkdir, h.parent hlegal.nonempty hlegal.slash, if_neg (by simp [blocks.search]),
    if_neg (Nat.not_lt.2 hlegal.short), FileSystem.create,
    if_pos (Or.inr (Or.inr blocks.there))]

/-- Where `mkdir` says that the directory exists although none is found, something is in the way. -/
theorem At.blocks_of_mkdir (h : s.At rights name) (nonempty : c ≠ []) (slash : '/' ∉ c)
    (room : s.Room c) (lost : ∀ n d, ¬ Walks s.fs rights s.links s.dir [c, []] n d)
    (hexist : (s.fs.mkdir rights (name ++ c ++ ['/'])).1 = .error .EEXIST) :
    s.Blocks rights c := by
  rw [mkdir, h.parent nonempty slash] at hexist
  by_cases hsearch : (!rights.search s.dir) = true
  · rw [if_pos hsearch] at hexist
    cases hexist
  rw [if_neg hsearch] at hexist
  have search : rights.search s.dir = true := by simpa using hsearch
  by_cases hlong : c.length > NAME_MAX
  · rw [if_pos hlong] at hexist
    cases hexist
  rw [if_neg hlong, FileSystem.create] at hexist
  have hdots : ¬(c = ['.'] ∨ c = ['.', '.']) := by
    intro dots
    obtain ⟨n, d, walks⟩ := h.walks_dot search dots
    exact lost n d walks
  by_cases there : s.fs.node (s.dir ++ [c]) = none
  · rw [not_or] at hdots
    rw [if_neg (by simp [hdots, there])] at hexist
    split_ifs at hexist
    cases hexist
  · exact ⟨room, search, there, lost⟩

end Place

/-! ## All directories -/

theorem Paves.keeps (h : Paves rights s cs t) : s.fs.Keeps t.fs := by
  induction h with
  | nil s => exact keeps_refl s.fs
  | empty _ ih => exact ih
  | walk _ _ _ _ ih => exact ih
  | make _ _ ih => exact (Place.keeps_made _ _).trans ih

theorem Paves.dir (h : Paves rights s cs t) (dir : s.fs.node s.dir = some .dir) :
    t.fs.node t.dir = some .dir := by
  induction h with
  | nil => exact dir
  | empty _ ih => exact ih dir
  | @walk s t c cs n d _ _ walks _ ih =>
    obtain ⟨-, hd⟩ := walks_name_slash_iff.1 walks
    exact ih hd
  | make can _ ih => exact ih (Place.node_made dir can.can)

/-- Once the directories are made, the names lead to the place reached. -/
theorem Paves.walks {k : ℕ} {cur : Path} (h : Paves rights s cs t)
    (dir : s.fs.node s.dir = some .dir) (walks : Walks s.fs rights k cur xs s.links s.dir) :
    Walks t.fs rights k cur (xs ++ cs) t.links t.dir := by
  induction h generalizing xs with
  | nil => rwa [List.append_nil]
  | empty _ ih =>
    have hxs := ih dir (walks_concat_empty_iff.2 ⟨walks, dir⟩)
    rwa [List.append_assoc, List.singleton_append] at hxs
  | @walk s t c cs n d _ _ step _ ih =>
    obtain ⟨hstep, hd⟩ := walks_name_slash_iff.1 step
    have hxs := ih hd (walks_append_iff.2 ⟨_, _, walks, hstep⟩)
    rwa [List.append_assoc, List.singleton_append] at hxs
  | @make s t c cs can _ ih =>
    have hnode := Place.node_made dir can.can
    have hstep : Walks (s.made c).fs rights s.links s.dir [c] s.links (s.dir ++ [c]) :=
      .entry can.can.search hnode (fun _ h => by cases h) (.nil _ _)
    have hxs := ih hnode
      (walks_append_iff.2 ⟨_, _, (Place.keeps_made s c).walks walks, hstep⟩)
    rwa [List.append_assoc, List.singleton_append] at hxs

end FileSystem

end Posix
