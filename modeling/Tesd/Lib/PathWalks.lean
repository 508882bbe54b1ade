import Tesd.Lib.PathNames

/-!
# Walks along path names

The walk that resolves a path name, as a relation that says how many symbolic links it may still
follow at its end.  A walk along a name is one along its beginning and then one along the rest.
What a name leads to without regard to permissions and limits is given by `Leads`; the last
component need not be there.
-/

namespace Posix

namespace FileSystem

variable {fs fs' : FileSystem} {rights : Rights}

/-- Where the walk along the target of a symbolic link in `cur` begins. -/
def linkStart (cur : Path) (target : List Char) : Path :=
  if target.head? = some '/' then [] else cur

/-- From `cur`, with at most `n` symbolic links, the names lead to what is at `p`; `m` links may
still be followed. -/
inductive Walks (fs : FileSystem) (rights : Rights) : ℕ → Path → List Name → ℕ → Path → Prop
  | nil (n : ℕ) (cur : Path) : Walks fs rights n cur [] n cur
  | empty {n m : ℕ} {cur p : Path} {cs : List Name} (dir : fs.node cur = some .dir)
      (rest : Walks fs rights n cur cs m p) : Walks fs rights n cur ([] :: cs) m p
  | dot {n m : ℕ} {cur p : Path} {cs : List Name} (dir : fs.node cur = some .dir)
      (search : rights.search cur = true) (rest : Walks fs rights n cur cs m p) :
      Walks fs rights n cur (['.'] :: cs) m p
  | up {n m : ℕ} {cur p : Path} {cs : List Name} (dir : fs.node cur = some .dir)
      (search : rights.search cur = true) (rest : Walks fs rights n cur.dropLast cs m p) :
      Walks fs rights n cur (['.', '.'] :: cs) m p
  | entry {n m : ℕ} {cur p : Path} {c : Name} {cs : List Name} {x : Node}
      (search : rights.search cur = true) (there : fs.node (cur ++ [c]) = some x)
      (notLink : ∀ target, x ≠ .symlink target) (rest : Walks fs rights n (cur ++ [c]) cs m p) :
      Walks fs rights n cur (c :: cs) m p
  | link {n m : ℕ} {cur p : Path} {c : Name} {cs : List Name} {target : List Char}
      (search : rights.search cur = true)
      (there : fs.node (cur ++ [c]) = some (.symlink target)) (nonempty : target ≠ [])
      (rest : Walks fs rights n (linkStart cur target) (target.splitOn '/' ++ cs) m p) :
      Walks fs rights (n + 1) cur (c :: cs) m p

section Walk

variable {n m : ℕ} {cur p : Path} {c : Name} {cs ds : List Name}

/-! ## The function -/

/-- One name of a walk. -/
theorem walk_cons (n : ℕ) (cur : Path) (c : Name) (cs : List Name) :
    fs.walk rights n cur (c :: cs) =
      if fs.node cur ≠ some .dir then .error .ENOTDIR
      else if c = [] then fs.walk rights n cur cs
      else if !rights.search cur then .error .EACCES
      else if c = ['.'] then fs.walk rights n cur cs
      else if c = ['.', '.'] then fs.walk rights n cur.dropLast cs
      else if c.length > NAME_MAX then .error .ENAMETOOLONG
      else
        match fs.node (cur ++ [c]), n with
        | none, _ => .error .ENOENT
        | some (.symlink target), 0 => if target = [] then .error .ENOENT else .error .ELOOP
        | some (.symlink target), n + 1 =>
          if target = [] then .error .ENOENT
          else fs.walk rights n (linkStart cur target) (target.splitOn '/' ++ cs)
        | some _, n => fs.walk rights n (cur ++ [c]) cs := by
  cases n with
  | zero =>
    rw [walk, walkWith]
    rcases fs.node (cur ++ [c]) with _ | ⟨_ | _ | _ | _⟩ <;> rfl
  | succ n =>
    rw [walk, walkWith]
    rcases fs.node (cur ++ [c]) with _ | ⟨_ | _ | _ | _⟩ <;> rfl

theorem walk_of_walks (h : Walks fs rights n cur cs m p) : fs.walk rights n cur cs = .ok p := by
  induction h with
  | nil n cur => cases n <;> rfl
  | empty dir rest ih => rw [walk_cons, if_neg (not_not.2 dir), if_pos rfl, ih]
  | dot dir search rest ih =>
    rw [walk_cons, if_neg (not_not.2 dir), if_neg (by decide), if_neg (by simp [search]),
      if_pos rfl, ih]
  | up dir search rest ih =>
    rw [walk_cons, if_neg (not_not.2 dir), if_neg (by decide), if_neg (by simp [search]),
      if_neg (by decide), if_pos rfl, ih]
  | @entry n m cur p c cs x search there notLink rest ih =>
    have legal := fs.legal _ _ _ there
    rw [walk_cons, if_neg (not_not.2 (fs.tree _ _ _ there)), if_neg legal.nonempty,
      if_neg (by simp [search]), if_neg legal.dot, if_neg legal.dotDot,
      if_neg (Nat.not_lt.2 legal.short), there]
    cases x with
    | symlink target => exact absurd rfl (notLink target)
    | dir => exact ih
    | file data => exact ih
    | other => exact ih
  | link search there nonempty rest ih =>
    have legal := fs.legal _ _ _ there
    rw [walk_cons, if_neg (not_not.2 (fs.tree _ _ _ there)), if_neg legal.nonempty,
      if_neg (by simp [search]), if_neg legal.dot, if_neg legal.dotDot,
      if_neg (Nat.not_lt.2 legal.short), there]
    exact (if_neg nonempty).trans ih

/-- One name of a walk that goes well. -/
theorem walk_cons_cases (h : fs.walk rights n cur (c :: cs) = .ok p) :
    fs.node cur = some .dir ∧ ((c = [] ∧ fs.walk rights n cur cs = .ok p) ∨
      rights.search cur = true ∧ ((c = ['.'] ∧ fs.walk rights n cur cs = .ok p) ∨
        (c = ['.', '.'] ∧ fs.walk rights n cur.dropLast cs = .ok p) ∨
        ∃ x, fs.node (cur ++ [c]) = some x ∧
          ((∃ k target, n = k + 1 ∧ x = .symlink target ∧ target ≠ [] ∧
              fs.walk rights k (linkStart cur target) (target.splitOn '/' ++ cs) = .ok p) ∨
            (∀ target, x ≠ .symlink target) ∧ fs.walk rights n (cur ++ [c]) cs = .ok p))) := by
  cases n with
  | zero =>
    obtain ⟨hdir, hempty | ⟨hsearch, hdot | hup | ⟨x, there, hdown⟩⟩⟩ := walkWith_cons_cases h
    · exact ⟨hdir, .inl hempty⟩
    · exact ⟨hdir, .inr ⟨hsearch, .inl hdot⟩⟩
    · exact ⟨hdir, .inr ⟨hsearch, .inr (.inl hup)⟩⟩
    · refine ⟨hdir, .inr ⟨hsearch, .inr (.inr ⟨x, there, ?_⟩)⟩⟩
      rcases hdown with ⟨_, _, _, hlink⟩ | hdown
      · cases hlink
      · exact .inr hdown
  | succ k =>
    obtain ⟨hdir, hempty | ⟨hsearch, hdot | hup | ⟨x, there, hdown⟩⟩⟩ := walkWith_cons_cases h
    · exact ⟨hdir, .inl hempty⟩
    · exact ⟨hdir, .inr ⟨hsearch, .inl hdot⟩⟩
    · exact ⟨hdir, .inr ⟨hsearch, .inr (.inl hup)⟩⟩
    · refine ⟨hdir, .inr ⟨hsearch, .inr (.inr ⟨x, there, ?_⟩)⟩⟩
      rcases hdown with ⟨target, hx, hnil, hlink⟩ | hdown
      · exact .inl ⟨k, target, rfl, hx, hnil, hlink⟩
      · exact .inr hdown

theorem walks_of_walk_of_links
    (links : ∀ k, n = k + 1 → ∀ cur cs, fs.walk rights k cur cs = .ok p →
      ∃ m, Walks fs rights k cur cs m p)
    (h : fs.walk rights n cur cs = .ok p) : ∃ m, Walks fs rights n cur cs m p := by
  induction cs generalizing cur with
  | nil =>
    obtain rfl : cur = p := by cases n <;> exact Except.ok.inj h
    exact ⟨n, .nil n cur⟩
  | cons c cs ih =>
    obtain ⟨hdir, ⟨rfl, hempty⟩ | ⟨hsearch, ⟨rfl, hdot⟩ | ⟨rfl, hup⟩ | ⟨x, there, hdown⟩⟩⟩ :=
      walk_cons_cases h
    · obtain ⟨m, walks⟩ := ih hempty
      exact ⟨m, .empty hdir walks⟩
    · obtain ⟨m, walks⟩ := ih hdot
      exact ⟨m, .dot hdir hsearch walks⟩
    · obtain ⟨m, walks⟩ := ih hup
      exact ⟨m, .up hdir hsearch walks⟩
    · rcases hdown with ⟨k, target, rfl, rfl, hnil, hlink⟩ | ⟨hno, hdown⟩
      · obtain ⟨m, walks⟩ := links k rfl _ _ hlink
        exact ⟨m, .link hsearch there hnil walks⟩
      · obtain ⟨m, walks⟩ := ih hdown
        exact ⟨m, .entry hsearch there hno walks⟩

/-- The function and the relation are about the same walks. -/
theorem walk_eq_ok_iff : fs.walk rights n cur cs = .ok p ↔ ∃ m, Walks fs rights n cur cs m p := by
  refine ⟨fun h => ?_, fun ⟨m, walks⟩ => walk_of_walks walks⟩
  induction n generalizing cur cs with
  | zero => exact walks_of_walk_of_links (fun k hk => by cases hk) h
  | succ n ih =>
    refine walks_of_walk_of_links (fun k hk cur cs h => ?_) h
    obtain rfl := Nat.succ.inj hk
    exact ih h

/-- A walk along two names is one along the first and then one along the second. -/
theorem walks_append_iff : Walks fs rights n cur (cs ++ ds) m p ↔
    ∃ k q, Walks fs rights n cur cs k q ∧ Walks fs rights k q ds m p := by
  constructor
  · intro h
    generalize hes : cs ++ ds = es at h
    induction h generalizing cs with
    | nil n cur =>
      obtain ⟨rfl, rfl⟩ := List.append_eq_nil_iff.1 hes
      exact ⟨n, cur, .nil n cur, .nil n cur⟩
    | @empty n m cur p es dir rest ih =>
      rcases cs with _ | ⟨c, cs⟩
      · obtain rfl : ds = _ := hes
        exact ⟨n, cur, .nil n cur, .empty dir rest⟩
      · obtain ⟨rfl, htail⟩ := List.cons.inj hes
        obtain ⟨k, q, hfirst, hlast⟩ := ih htail
        exact ⟨k, q, .empty dir hfirst, hlast⟩
    | @dot n m cur p es dir search rest ih =>
      rcases cs with _ | ⟨c, cs⟩
      · obtain rfl : ds = _ := hes
        exact ⟨n, cur, .nil n cur, .dot dir search rest⟩
      · obtain ⟨rfl, htail⟩ := List.cons.inj hes
        obtain ⟨k, q, hfirst, hlast⟩ := ih htail
        exact ⟨k, q, .dot dir search hfirst, hlast⟩
    | @up n m cur p es dir search rest ih =>
      rcases cs with _ | ⟨c, cs⟩
      · obtain rfl : ds = _ := hes
        exact ⟨n, cur, .nil n cur, .up dir search rest⟩
      · obtain ⟨rfl, htail⟩ := List.cons.inj hes
        obtain ⟨k, q, hfirst, hlast⟩ := ih htail
        exact ⟨k, q, .up dir search hfirst, hlast⟩
    | @entry n m cur p c es x search there notLink rest ih =>
      rcases cs with _ | ⟨c', cs⟩
      · obtain rfl : ds = _ := hes
        exact ⟨n, cur, .nil n cur, .entry search there notLink rest⟩
      · obtain ⟨rfl, htail⟩ := List.cons.inj hes
        obtain ⟨k, q, hfirst, hlast⟩ := ih htail
        exact ⟨k, q, .entry search there notLink hfirst, hlast⟩
    | @link n m cur p c es target search there nonempty rest ih =>
      rcases cs with _ | ⟨c', cs⟩
      · obtain rfl : ds = _ := hes
        exact ⟨n + 1, cur, .nil _ cur, .link search there nonempty rest⟩
      · obtain ⟨rfl, rfl⟩ := List.cons.inj hes
        obtain ⟨k, q, hfirst, hlast⟩ := ih (List.append_assoc _ _ _)
        exact ⟨k, q, .link search there nonempty hfirst, hlast⟩
  · rintro ⟨k, q, hfirst, hlast⟩
    induction hfirst with
    | nil => exact hlast
    | empty dir _ ih => exact .empty dir (ih hlast)
    | dot dir search _ ih => exact .dot dir search (ih hlast)
    | up dir search _ ih => exact .up dir search (ih hlast)
    | entry search there notLink _ ih => exact .entry search there notLink (ih hlast)
    | link search there nonempty _ ih =>
      have hrest := ih hlast
      rw [List.append_assoc] at hrest
      exact .link search there nonempty hrest

/-- Where a walk ends is determined by the names. -/
theorem walks_unique {m' : ℕ} {p' : Path} (h : Walks fs rights n cur cs m p)
    (h' : Walks fs rights n cur cs m' p') : m' = m ∧ p' = p := by
  induction h with
  | nil =>
    cases h'
    exact ⟨rfl, rfl⟩
  | empty dir rest ih =>
    cases h' with
    | empty _ rest' => exact ih rest'
    | entry _ there _ _ => exact absurd rfl (fs.legal _ _ _ there).nonempty
    | link _ there _ _ => exact absurd rfl (fs.legal _ _ _ there).nonempty
  | dot dir search rest ih =>
    cases h' with
    | dot _ _ rest' => exact ih rest'
    | entry _ there _ _ => exact absurd rfl (fs.legal _ _ _ there).dot
    | link _ there _ _ => exact absurd rfl (fs.legal _ _ _ there).dot
  | up dir search rest ih =>
    cases h' with
    | up _ _ rest' => exact ih rest'
    | entry _ there _ _ => exact absurd rfl (fs.legal _ _ _ there).dotDot
    | link _ there _ _ => exact absurd rfl (fs.legal _ _ _ there).dotDot
  | entry search there notLink rest ih =>
    cases h' with
    | empty => exact absurd rfl (fs.legal _ _ _ there).nonempty
    | dot => exact absurd rfl (fs.legal _ _ _ there).dot
    | up => exact absurd rfl (fs.legal _ _ _ there).dotDot
    | entry _ _ _ rest' => exact ih rest'
    | link _ there' _ _ =>
      rw [there] at there'
      exact absurd (Option.some.inj there') (notLink _)
  | link search there nonempty rest ih =>
    cases h' with
    | empty => exact absurd rfl (fs.legal _ _ _ there).nonempty
    | dot => exact absurd rfl (fs.legal _ _ _ there).dot
    | up => exact absurd rfl (fs.legal _ _ _ there).dotDot
    | entry _ there' notLink _ =>
      rw [there] at there'
      exact absurd (Option.some.inj there').symm (notLink _)
    | link _ there' _ rest' =>
      rw [there] at there'
      obtain rfl := Node.symlink.inj (Option.some.inj there')
      exact ih rest'

/-- A walk is the same in a tree that has more in it. -/
theorem Keeps.walks (keeps : fs.Keeps fs') (h : Walks fs rights n cur cs m p) :
    Walks fs' rights n cur cs m p := by
  induction h with
  | nil n cur => exact .nil n cur
  | empty dir _ ih => exact .empty (keeps _ _ dir) ih
  | dot dir search _ ih => exact .dot (keeps _ _ dir) search ih
  | up dir search _ ih => exact .up (keeps _ _ dir) search ih
  | entry search there notLink _ ih => exact .entry search (keeps _ _ there) notLink ih
  | link search there nonempty _ ih => exact .link search (keeps _ _ there) nonempty ih

/-- A slash at the end of a name asks for a directory. -/
theorem walks_concat_empty_iff : Walks fs rights n cur (cs ++ [[]]) m p ↔
    Walks fs rights n cur cs m p ∧ fs.node p = some .dir := by
  rw [walks_append_iff]
  constructor
  · rintro ⟨k, q, hfirst, hlast⟩
    cases hlast with
    | empty dir rest =>
      cases rest
      exact ⟨hfirst, dir⟩
    | entry _ there _ _ => exact absurd rfl (fs.legal _ _ _ there).nonempty
    | link _ there _ _ => exact absurd rfl (fs.legal _ _ _ there).nonempty
  · rintro ⟨walks, dir⟩
    exact ⟨m, p, walks, .empty dir (.nil m p)⟩

theorem walks_name_slash_iff :
    Walks fs rights n cur [c, []] m p ↔ Walks fs rights n cur [c] m p ∧ fs.node p = some .dir := by
  rw [← walks_concat_empty_iff, List.singleton_append]

/-- A walk never fails because something is there. -/
theorem walk_ne_exists : fs.walk rights n cur cs ≠ .error .EEXIST := by
  have step : ∀ n, (∀ k, n = k + 1 → ∀ cur cs, fs.walk rights k cur cs ≠ .error .EEXIST) →
      ∀ cur cs, fs.walk rights n cur cs ≠ .error .EEXIST := by
    intro n links cur cs
    induction cs generalizing cur with
    | nil => cases n <;> exact fun h => by cases h
    | cons c cs ih =>
      have ite : ∀ {q : Prop} [Decidable q] {x y : Except Errno Path}, x ≠ .error .EEXIST →
          y ≠ .error .EEXIST → (if q then x else y) ≠ .error .EEXIST := by
        intro q _ x y hx hy
        split_ifs
        · exact hx
        · exact hy
      rw [walk_cons]
      refine ite nofun (ite (ih _) (ite nofun (ite (ih _) (ite (ih _) (ite nofun ?_)))))
      split
      · exact nofun
      · exact ite nofun nofun
      · exact ite nofun (links _ rfl _ _)
      · exact ih _
  induction n generalizing cur cs with
  | zero => exact step 0 (fun k hk => by cases hk) cur cs
  | succ n ih =>
    refine step (n + 1) (fun k hk cur cs => ?_) cur cs
    obtain rfl := Nat.succ.inj hk
    exact @ih cur cs

end Walk

/-! ## What names lead to -/

/-- From `cur`, the names lead to `p`, where there need not be anything yet. -/
inductive Leads (fs : FileSystem) : Path → List Name → Path → Prop
  | nil (cur : Path) : Leads fs cur [] cur
  | empty {cur p : Path} {cs : List Name} (dir : fs.node cur = some .dir)
      (rest : Leads fs cur cs p) : Leads fs cur ([] :: cs) p
  | dot {cur p : Path} {cs : List Name} (dir : fs.node cur = some .dir)
      (rest : Leads fs cur cs p) : Leads fs cur (['.'] :: cs) p
  | up {cur p : Path} {cs : List Name} (dir : fs.node cur = some .dir)
      (rest : Leads fs cur.dropLast cs p) : Leads fs cur (['.', '.'] :: cs) p
  | entry {cur p : Path} {c : Name} {cs : List Name} {x : Node}
      (there : fs.node (cur ++ [c]) = some x) (notLink : ∀ target, x ≠ .symlink target)
      (rest : Leads fs (cur ++ [c]) cs p) : Leads fs cur (c :: cs) p
  | link {cur p : Path} {c : Name} {cs : List Name} {target : List Char}
      (there : fs.node (cur ++ [c]) = some (.symlink target)) (nonempty : target ≠ [])
      (rest : Leads fs (linkStart cur target) (target.splitOn '/' ++ cs) p) :
      Leads fs cur (c :: cs) p
  | new {cur : Path} {c : Name} (dir : fs.node cur = some .dir) (nonempty : c ≠ [])
      (dot : c ≠ ['.']) (dotDot : c ≠ ['.', '.']) (missing : fs.node (cur ++ [c]) = none) :
      Leads fs cur [c] (cur ++ [c])

section Leads

variable {n m : ℕ} {cur p q : Path} {cs ds : List Name}

theorem leads_of_walks (h : Walks fs rights n cur cs m p) : Leads fs cur cs p := by
  induction h with
  | nil n cur => exact .nil cur
  | empty dir _ ih => exact .empty dir ih
  | dot dir _ _ ih => exact .dot dir ih
  | up dir _ _ ih => exact .up dir ih
  | entry _ there notLink _ ih => exact .entry there notLink ih
  | link _ there nonempty _ ih => exact .link there nonempty ih

theorem leads_of_resolve {s : List Char} (h : fs.resolve rights s = .ok p) :
    Leads fs [] (s.splitOn '/') p := by
  obtain ⟨m, walks⟩ := walk_eq_ok_iff.1 h
  exact leads_of_walks walks

/-- Names lead on from a directory, or nowhere else. -/
theorem Leads.dir_or_nil (h : Leads fs cur cs p) : fs.node cur = some .dir ∨ cs = [] ∧ p = cur := by
  cases h with
  | nil => exact Or.inr ⟨rfl, rfl⟩
  | empty dir _ => exact Or.inl dir
  | dot dir _ => exact Or.inl dir
  | up dir _ => exact Or.inl dir
  | entry there _ _ => exact Or.inl (fs.tree _ _ _ there)
  | link there _ _ => exact Or.inl (fs.tree _ _ _ there)
  | new dir _ _ _ _ => exact Or.inl dir

theorem Leads.append (h : Leads fs cur cs q) (h' : Leads fs q ds p) :
    Leads fs cur (cs ++ ds) p := by
  induction h with
  | nil => exact h'
  | empty dir _ ih => exact .empty dir (ih h')
  | dot dir _ ih => exact .dot dir (ih h')
  | up dir _ ih => exact .up dir (ih h')
  | entry there notLink _ ih => exact .entry there notLink (ih h')
  | link there nonempty _ ih =>
    have hrest := ih h'
    rw [List.append_assoc] at hrest
    exact .link there nonempty hrest
  | new dir nonempty dot dotDot missing =>
    rcases h'.dir_or_nil with hdir | ⟨rfl, rfl⟩
    · rw [missing] at hdir
      cases hdir
    · exact .new dir nonempty dot dotDot missing

section Inversion

variable {c : Name} {x : Node} {target : List Char}

theorem Leads.of_empty (h : Leads fs cur ([] :: cs) p) : Leads fs cur cs p := by
  cases h with
  | empty _ rest => exact rest
  | entry there _ _ => exact absurd rfl (fs.legal _ _ _ there).nonempty
  | link there _ _ => exact absurd rfl (fs.legal _ _ _ there).nonempty
  | new _ nonempty _ _ _ => exact absurd rfl nonempty

theorem Leads.of_dot (h : Leads fs cur (['.'] :: cs) p) : Leads fs cur cs p := by
  cases h with
  | dot _ rest => exact rest
  | entry there _ _ => exact absurd rfl (fs.legal _ _ _ there).dot
  | link there _ _ => exact absurd rfl (fs.legal _ _ _ there).dot
  | new _ _ dot _ _ => exact absurd rfl dot

theorem Leads.of_up (h : Leads fs cur (['.', '.'] :: cs) p) : Leads fs cur.dropLast cs p := by
  cases h with
  | up _ rest => exact rest
  | entry there _ _ => exact absurd rfl (fs.legal _ _ _ there).dotDot
  | link there _ _ => exact absurd rfl (fs.legal _ _ _ there).dotDot
  | new _ _ _ dotDot _ => exact absurd rfl dotDot

theorem Leads.of_entry (h : Leads fs cur (c :: cs) p) (there : fs.node (cur ++ [c]) = some x)
    (notLink : ∀ target, x ≠ .symlink target) : Leads fs (cur ++ [c]) cs p := by
  have legal := fs.legal _ _ _ there
  cases h with
  | empty => exact absurd rfl legal.nonempty
  | dot => exact absurd rfl legal.dot
  | up => exact absurd rfl legal.dotDot
  | entry _ _ rest => exact rest
  | link there' _ _ =>
    rw [there] at there'
    exact absurd (Option.some.inj there') (notLink _)
  | new _ _ _ _ missing =>
    rw [there] at missing
    cases missing

theorem Leads.of_link (h : Leads fs cur (c :: cs) p)
    (there : fs.node (cur ++ [c]) = some (.symlink target)) :
    Leads fs (linkStart cur target) (target.splitOn '/' ++ cs) p := by
  have legal := fs.legal _ _ _ there
  cases h with
  | empty => exact absurd rfl legal.nonempty
  | dot => exact absurd rfl legal.dot
  | up => exact absurd rfl legal.dotDot
  | entry there' notLink _ =>
    rw [there] at there'
    exact absurd (Option.some.inj there').symm (notLink _)
  | link there' _ rest =>
    rw [there] at there'
    obtain rfl := Node.symlink.inj (Option.some.inj there')
    exact rest
  | new _ _ _ _ missing =>
    rw [there] at missing
    cases missing

end Inversion

/-- Where the rest of the names leads, once the first of them have led to what is there. -/
theorem Leads.rest (h : Leads fs cur cs q) (there : fs.node q ≠ none)
    (whole : Leads fs cur (cs ++ ds) p) : Leads fs q ds p := by
  induction h with
  | nil => exact whole
  | empty _ _ ih => exact ih there whole.of_empty
  | dot _ _ ih => exact ih there whole.of_dot
  | up _ _ ih => exact ih there whole.of_up
  | entry there' notLink _ ih => exact ih there (whole.of_entry there' notLink)
  | @link cur q c cs target there' _ _ ih =>
    have hrest : Leads fs _ (target.splitOn '/' ++ (cs ++ ds)) p := whole.of_link there'
    rw [← List.append_assoc] at hrest
    exact ih there hrest
  | new _ _ _ _ missing => exact absurd missing there

theorem leads_append_iff (h : Leads fs cur cs q) (there : fs.node q ≠ none) :
    Leads fs cur (cs ++ ds) p ↔ Leads fs q ds p :=
  ⟨h.rest there, h.append⟩

/-- The names lead to one place. -/
theorem Leads.unique (h : Leads fs cur cs p) (h' : Leads fs cur cs q) : q = p := by
  induction h with
  | nil =>
    cases h'
    rfl
  | empty _ _ ih => exact ih h'.of_empty
  | dot _ _ ih => exact ih h'.of_dot
  | up _ _ ih => exact ih h'.of_up
  | entry there notLink _ ih => exact ih (h'.of_entry there notLink)
  | link there _ _ ih => exact ih (h'.of_link there)
  | new _ nonempty dot dotDot missing =>
    cases h' with
    | empty => exact absurd rfl nonempty
    | dot => exact absurd rfl dot
    | up => exact absurd rfl dotDot
    | entry there _ _ =>
      rw [missing] at there
      cases there
    | link there _ _ =>
      rw [missing] at there
      cases there
    | new => rfl

end Leads

end FileSystem

end Posix
