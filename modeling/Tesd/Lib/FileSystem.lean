import Mathlib.Data.List.Basic
import Mathlib.Logic.Function.Basic
import Mathlib.Tactic.Common

/-!
# Files, directories and symbolic links

The part of POSIX that deals with path names.  A file system is a tree of nodes, each at a `Path`; a
string is resolved to a path by walking down from the root, following symbolic links on the way.
What the caller has no permission for, and what fails for want of space, is given by its `Rights`.
-/

namespace Posix

/-- A name in a directory. -/
abbrev Name := List Char

/-- The names from the root on. -/
abbrev Path := List Name

/-- The names of a path, each after a slash. -/
def spell (p : Path) : List Char := p.flatMap fun c => '/' :: c

/-- The name of a path. -/
def render (p : Path) : List Char := if p = [] then ['/'] else spell p

inductive Errno
  | EACCES | EEXIST | EISDIR | ELOOP | ENAMETOOLONG | ENOENT | ENOTDIR
  deriving DecidableEq, Repr

inductive Node
  | dir
  | file (data : List UInt8)
  | symlink (target : List Char)
  /-- a device, a socket or a pipe -/
  | other
  deriving DecidableEq

def NAME_MAX : ℕ := 255

/-- The size of a buffer for a path name, with the zero at its end. -/
def PATH_MAX : ℕ := 4096

def SYMLOOP_MAX : ℕ := 40

/-- What an entry of a directory can be called. -/
structure Legal (c : Name) : Prop where
  nonempty : c ≠ []
  dot : c ≠ ['.']
  dotDot : c ≠ ['.', '.']
  slash : '/' ∉ c
  short : c.length ≤ NAME_MAX

instance (c : Name) : Decidable (Legal c) :=
  decidable_of_iff (c ≠ [] ∧ c ≠ ['.'] ∧ c ≠ ['.', '.'] ∧ '/' ∉ c ∧ c.length ≤ NAME_MAX)
    ⟨fun ⟨h₁, h₂, h₃, h₄, h₅⟩ => ⟨h₁, h₂, h₃, h₄, h₅⟩,
      fun ⟨h₁, h₂, h₃, h₄, h₅⟩ => ⟨h₁, h₂, h₃, h₄, h₅⟩⟩

/-- A tree of files: what is not the root is in a directory. -/
structure FileSystem where
  node : Path → Option Node
  root : node [] = some .dir
  tree : ∀ (p : Path) (c : Name) (n : Node), node (p ++ [c]) = some n → node p = some .dir
  legal : ∀ (p : Path) (c : Name) (n : Node), node (p ++ [c]) = some n → Legal c

/-- What the caller may do: look names up in a directory, create and remove an entry, and open a
file that exists for reading and for writing. -/
structure Rights where
  search : Path → Bool
  create : Path → Bool
  remove : Path → Bool
  read : Path → Bool
  write : Path → Bool

namespace FileSystem

/-- A tree with nothing in it. -/
def bare : FileSystem where
  node := Function.update (fun _ => none) [] (some .dir)
  root := Function.update_self _ _ _
  tree := by
    intro p c n h
    rw [Function.update_of_ne (by simp)] at h
    cases h
  legal := by
    intro p c n h
    rw [Function.update_of_ne (by simp)] at h
    cases h

/-! ## Changes of a tree -/

/-- A new entry in a directory. -/
def add (fs : FileSystem) (d : Path) (c : Name) (n : Node) (dir : fs.node d = some .dir)
    (legal : Legal c) (new : fs.node (d ++ [c]) = none) : FileSystem where
  node := Function.update fs.node (d ++ [c]) (some n)
  root := by
    rw [Function.update_of_ne (by simp)]
    exact fs.root
  tree := by
    intro p c' n' h
    have hd : p ≠ d ++ [c] → fs.node p = some .dir →
        Function.update fs.node (d ++ [c]) (some n) p = some .dir := by
      intro hne hp
      rw [Function.update_of_ne hne]
      exact hp
    by_cases heq : p ++ [c'] = d ++ [c]
    · obtain ⟨rfl, -⟩ := List.append_inj' heq rfl
      exact hd (by simp) dir
    · rw [Function.update_of_ne heq] at h
      have hp := fs.tree p c' n' h
      refine hd (fun hpd => ?_) hp
      rw [hpd, new] at hp
      cases hp
  legal := by
    intro p c' n' h
    by_cases heq : p ++ [c'] = d ++ [c]
    · obtain ⟨-, hc⟩ := List.append_inj' heq rfl
      rw [List.singleton_inj.1 hc]
      exact legal
    · rw [Function.update_of_ne heq] at h
      exact fs.legal p c' n' h

/-- The tree without an entry that is not a directory. -/
def erase (fs : FileSystem) (p : Path) (notDir : fs.node p ≠ some .dir) : FileSystem where
  node := Function.update fs.node p none
  root := by
    rw [Function.update_of_ne]
    · exact fs.root
    · rintro rfl
      exact notDir fs.root
  tree := by
    intro q c n h
    by_cases heq : q ++ [c] = p
    · rw [heq, Function.update_self] at h
      cases h
    · rw [Function.update_of_ne heq] at h
      have hq := fs.tree q c n h
      rw [Function.update_of_ne]
      · exact hq
      · rintro rfl
        exact notDir hq
  legal := by
    intro q c n h
    by_cases heq : q ++ [c] = p
    · rw [heq, Function.update_self] at h
      cases h
    · rw [Function.update_of_ne heq] at h
      exact fs.legal q c n h

/-- The tree with other contents of a file. -/
def setFile (fs : FileSystem) (p : Path) (data data' : List UInt8)
    (file : fs.node p = some (.file data)) : FileSystem where
  node := Function.update fs.node p (some (.file data'))
  root := by
    rw [Function.update_of_ne]
    · exact fs.root
    · rintro rfl
      cases fs.root.symm.trans file
  tree := by
    intro q c n h
    have hq : fs.node q = some .dir := by
      by_cases heq : q ++ [c] = p
      · rw [← heq] at file
        exact fs.tree q c _ file
      · rw [Function.update_of_ne heq] at h
        exact fs.tree q c n h
    rw [Function.update_of_ne]
    · exact hq
    · rintro rfl
      cases hq.symm.trans file
  legal := by
    intro q c n h
    by_cases heq : q ++ [c] = p
    · rw [← heq] at file
      exact fs.legal q c _ file
    · rw [Function.update_of_ne heq] at h
      exact fs.legal q c n h

/-- A new entry, where there can be one. -/
def enter (fs : FileSystem) (d : Path) (c : Name) (n : Node) : FileSystem :=
  if h : fs.node d = some .dir ∧ Legal c ∧ fs.node (d ++ [c]) = none then
    fs.add d c n h.1 h.2.1 h.2.2
  else fs

/-! ## Path names -/

/-- Walks on from the directory `cur`; `follow` is what is done about a symbolic link. -/
def walkWith (fs : FileSystem) (rights : Rights)
    (follow : Path → List Name → Except Errno Path) : Path → List Name → Except Errno Path
  | cur, [] => .ok cur
  | cur, c :: cs =>
    if fs.node cur ≠ some .dir then .error .ENOTDIR
    else if c = [] then walkWith fs rights follow cur cs
    else if !rights.search cur then .error .EACCES
    else if c = ['.'] then walkWith fs rights follow cur cs
    else if c = ['.', '.'] then walkWith fs rights follow cur.dropLast cs
    else if c.length > NAME_MAX then .error .ENAMETOOLONG
    else
      match fs.node (cur ++ [c]) with
      | none => .error .ENOENT
      | some (.symlink target) =>
        if target = [] then .error .ENOENT
        else follow (if target.head? = some '/' then [] else cur) (target.splitOn '/' ++ cs)
      | some _ => walkWith fs rights follow (cur ++ [c]) cs

/-- Walks on from the directory `cur`, following at most `n` symbolic links. -/
def walk (fs : FileSystem) (rights : Rights) : ℕ → Path → List Name → Except Errno Path
  | 0 => walkWith fs rights fun _ _ => .error .ELOOP
  | n + 1 => walkWith fs rights (walk fs rights n)

/-- The file that an absolute path name denotes, all symbolic links being followed. -/
def resolve (fs : FileSystem) (rights : Rights) (s : List Char) : Except Errno Path :=
  fs.walk rights SYMLOOP_MAX [] (s.splitOn '/')

/-- The directory and the name in it of the last component of these; that one is not looked at. -/
def parentFrom (fs : FileSystem) (rights : Rights) (start : Path) (cs : List Name) :
    Except Errno (Path × Name) :=
  match cs.reverse.dropWhile fun c => c = [] with
  | [] => .error .EEXIST
  | c :: rest =>
    match fs.walk rights SYMLOOP_MAX start rest.reverse with
    | .error e => .error e
    | .ok d =>
      if fs.node d ≠ some .dir then .error .ENOTDIR
      else if !rights.search d then .error .EACCES
      else if c.length > NAME_MAX then .error .ENAMETOOLONG
      else .ok (d, c)

/-- The directory and the name in it of the entry that an absolute path name is about. -/
def parent (fs : FileSystem) (rights : Rights) (s : List Char) : Except Errno (Path × Name) :=
  fs.parentFrom rights [] (s.splitOn '/')

/-! ## System calls -/

/-- `realpath`. -/
def realpath (fs : FileSystem) (rights : Rights) (s : List Char) : Except Errno (List Char) :=
  match fs.resolve rights s with
  | .error e => .error e
  | .ok p => if (render p).length ≥ PATH_MAX then .error .ENAMETOOLONG else .ok (render p)

/-- `access` with `F_OK`: whether the file exists. -/
def accessOk (fs : FileSystem) (rights : Rights) (s : List Char) : Bool :=
  match fs.resolve rights s with
  | .error _ => false
  | .ok _ => true

/-- A new node where a path name has it: an error, or its path. -/
def create (fs : FileSystem) (rights : Rights) (n : Node) (place : Except Errno (Path × Name)) :
    Except Errno Path × FileSystem :=
  match place with
  | .error e => (.error e, fs)
  | .ok (d, c) =>
    if c = ['.'] ∨ c = ['.', '.'] ∨ fs.node (d ++ [c]) ≠ none then (.error .EEXIST, fs)
    else if !rights.create (d ++ [c]) then (.error .EACCES, fs)
    else (.ok (d ++ [c]), fs.enter d c n)

/-- `mkdir`. -/
def mkdir (fs : FileSystem) (rights : Rights) (s : List Char) : Except Errno Path × FileSystem :=
  fs.create rights .dir (fs.parent rights s)

/-- `open` with `O_CREAT | O_EXCL`. -/
def openExcl (fs : FileSystem) (rights : Rights) (s : List Char) : Except Errno Path × FileSystem :=
  fs.create rights (.file []) (fs.parent rights s)

/-- Where `open` with `O_CREAT` creates a file: symbolic links to what does not exist are followed.
-/
def createdAt (fs : FileSystem) (rights : Rights) :
    ℕ → Path → List Name → Except Errno (Path × Name)
  | n, start, cs =>
    match fs.parentFrom rights start cs with
    | .error e => .error e
    | .ok (d, c) =>
      match fs.node (d ++ [c]), n with
      | some (.symlink _), 0 => .error .ELOOP
      | some (.symlink target), n + 1 =>
        fs.createdAt rights n (if target.head? = some '/' then [] else d) (target.splitOn '/')
      | _, _ => .ok (d, c)

/-- `open` with `O_RDWR | O_CREAT`. -/
def openCreat (fs : FileSystem) (rights : Rights) (s : List Char) :
    Except Errno Path × FileSystem :=
  match fs.resolve rights s with
  | .ok p =>
    if fs.node p = some .dir then (.error .EISDIR, fs)
    else if !rights.write p then (.error .EACCES, fs)
    else (.ok p, fs)
  | .error .ENOENT =>
    fs.create rights (.file []) (fs.createdAt rights SYMLOOP_MAX [] (s.splitOn '/'))
  | .error e => (.error e, fs)

/-- `open` with `O_RDONLY`, and what is read then: there is nothing to read from what is not a
file. -/
def openRead (fs : FileSystem) (rights : Rights) (s : List Char) :
    Except Errno (Option (List UInt8)) :=
  match fs.resolve rights s with
  | .error e => .error e
  | .ok p =>
    if !rights.read p then .error .EACCES
    else
      match fs.node p with
      | some (.file data) => .ok (some data)
      | _ => .ok none

/-- `unlink`: an error, if there is one. -/
def unlink (fs : FileSystem) (rights : Rights) (s : List Char) : Option Errno × FileSystem :=
  match fs.parent rights s with
  | .error e => (some e, fs)
  | .ok (d, c) =>
    if fs.node (d ++ [c]) = none then (some .ENOENT, fs)
    else if h : fs.node (d ++ [c]) = some .dir then (some .EISDIR, fs)
    else if !rights.remove (d ++ [c]) then (some .EACCES, fs)
    else (none, fs.erase (d ++ [c]) h)

/-- `ftruncate`, for a file that is open. -/
def truncate (fs : FileSystem) (p : Path) (len : ℕ) : FileSystem :=
  match h : fs.node p with
  | some (.file data) => fs.setFile p data (data.take len ++ List.replicate (len - data.length) 0) h
  | _ => fs

/-- A file that is open, with other contents; if it has been removed, it is not in the tree. -/
def put (fs : FileSystem) (p : Path) (contents : List UInt8) : FileSystem :=
  match h : fs.node p with
  | some (.file data) => fs.setFile p data contents h
  | _ => fs

end FileSystem

end Posix
