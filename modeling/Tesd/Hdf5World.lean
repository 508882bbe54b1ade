import Tesd.Hdf5Status

/-!
# A reference for the hdf5 library

An hdf5 library, with one hdf5 file, and a system with data files and a memory, as far as a
conversion uses them.  What the proofs ask of the library and of the system holds of it, and the
conversions of the examples are run on it.
-/

namespace Tesd

open Asserting

/-- An hdf5 file: the links from a group, by a name, to a group, and the datasets in the groups.
The root group is 0. -/
structure Store where
  links : List ((ℕ × CStr) × ℕ)
  sets : List ((ℕ × CStr) × List UInt8)
  deriving DecidableEq

/-- The hdf5 file, what the identifiers stand for, the memory in use and the open files.  A dataset
that is open is the identifier of a group, a name and a length. -/
structure World where
  file : Option Store
  groups : List (ℤ × ℕ)
  spaces : List (ℤ × ℤ)
  dsets : List (ℤ × (ℤ × CStr × ℤ))
  mem : List UInt8
  fds : List (ℕ × CStr)
  /-- `access` does not find the hdf5 file -/
  hidden : Bool
  clock : ℕ
  deriving DecidableEq

/-- A number above all of these. -/
def above : List ℕ → ℕ
  | [] => 0
  | n :: ns => max (n + 1) (above ns)

theorem lt_above {n : ℕ} {ns : List ℕ} (h : n ∈ ns) : n < above ns := by
  induction ns with
  | nil => cases h
  | cons m ns ih =>
    rw [above]
    rcases List.mem_cons.1 h with rfl | h
    · omega
    · have := ih h
      omega

/-- An identifier that does not stand for anything. -/
def freshId {β : Type} (ids : List (ℤ × β)) : Hid :=
  ⟨1 + (above (ids.map fun id => id.1.toNat) : ℕ), by omega⟩

def noId : Hid := ⟨-1, by decide⟩

theorem lookup_freshId {β : Type} (ids : List (ℤ × β)) : ids.lookup (freshId ids).val = none := by
  rw [List.lookup_eq_none_iff]
  intro id hid
  have hlt := lt_above (List.mem_map_of_mem (f := fun id => id.1.toNat) hid)
  simp only [freshId, bne_iff_ne, ne_eq]
  omega

/-- An object that is not linked, and has no links and no datasets. -/
def Store.fresh (f : Store) : ℕ :=
  above (0 :: (f.links.flatMap fun l => [l.1.1, l.2]) ++ f.sets.map fun l => l.1.1)

/-- What is under the key is taken away. -/
def dropKey {κ β : Type} [DecidableEq κ] (k : κ) (l : List (κ × β)) : List (κ × β) :=
  l.filter fun p => p.1 ≠ k

namespace World

variable (w : World)

/-- The object that an identifier of a group stands for, with the file. -/
def groupOf (gid : ℤ) : Option (Store × ℕ) :=
  match w.file, w.groups.lookup gid with
  | some f, some o => some (f, o)
  | _, _ => none

/-- The group is opened. -/
def opened (f : Store) (o : ℕ) : Hid × World :=
  (freshId w.groups, { w with file := some f, groups := ((freshId w.groups).val, o) :: w.groups })

def fopen : Hid × World :=
  match w.file with
  | some f => w.opened f 0
  | none => (noId, w)

def fcreate : Hid × World := w.opened ⟨[], []⟩ 0

def gclose (gid : ℤ) : World := { w with groups := dropKey gid w.groups }

def lexists (lid : ℤ) (group : CStr) : ℤ × World :=
  match w.groupOf lid with
  | some (f, o) => (if (f.links.lookup (o, group)).isSome then 1 else 0, w)
  | none => (-1, w)

def lcopy (lid : ℤ) (group : CStr) (dst : ℤ) (dstgroup : CStr) : ℤ × World :=
  match w.groupOf lid, w.groupOf dst with
  | some (f, o), some (_, d) =>
    match f.links.lookup (o, group), f.links.lookup (d, dstgroup) with
    | some x, none => (0, { w with file := some { f with links := ((d, dstgroup), x) :: f.links } })
    | _, _ => (-1, w)
  | _, _ => (-1, w)

def ldelete (lid : ℤ) (group : CStr) : ℤ × World :=
  match w.groupOf lid with
  | some (f, o) =>
    if (f.links.lookup (o, group)).isSome then
      (0, { w with file := some { f with links := dropKey (o, group) f.links } })
    else (-1, w)
  | none => (-1, w)

def gopen (lid : ℤ) (group : CStr) : Hid × World :=
  match w.groupOf lid with
  | some (f, o) =>
    match f.links.lookup (o, group) with
    | some x => w.opened f x
    | none => (noId, w)
  | none => (noId, w)

def gcreate (lid : ℤ) (group : CStr) : Hid × World :=
  match w.groupOf lid with
  | some (f, o) =>
    if f.links.lookup (o, group) = none then
      w.opened { f with links := ((o, group), f.fresh) :: f.links } f.fresh
    else (noId, w)
  | none => (noId, w)

def screate (length : ℤ) : Hid × World :=
  (freshId w.spaces, { w with spaces := ((freshId w.spaces).val, length) :: w.spaces })

def sclose (dspace : ℤ) : World := { w with spaces := dropKey dspace w.spaces }

def dcreate (gid : ℤ) (dsetname : CStr) (dspace : ℤ) : Hid × World :=
  match w.groupOf gid, w.spaces.lookup dspace with
  | some (f, o), some n =>
    if gid > 0 ∧ f.sets.lookup (o, dsetname) = none then
      (freshId w.dsets, { w with
        file := some { f with sets := ((o, dsetname), List.replicate n.toNat 0) :: f.sets }
        dsets := ((freshId w.dsets).val, (gid, dsetname, n)) :: w.dsets })
    else (noId, w)
  | _, _ => (noId, w)

/-- The bytes in memory from this address on. -/
def bytesAt (addr n : ℕ) : List UInt8 := (List.range n).map fun i => w.mem.getD (addr + i) 0

def dwrite (dset data : ℤ) : ℤ × World :=
  match w.dsets.lookup dset with
  | some (gid, name, n) =>
    match w.groupOf gid with
    | some (f, o) =>
      (0, { w with file := some { f with
        sets := ((o, name), w.bytesAt data.toNat n.toNat) :: dropKey (o, name) f.sets } })
    | none => (-1, w)
  | none => (-1, w)

def dclose (dset : ℤ) : World := { w with dsets := dropKey dset w.dsets }

def access : Bool × World := (decide (w.file ≠ none ∧ w.hidden = false), w)

def unlink : Bool × World := if w.file ≠ none then (true, { w with file := none }) else (false, w)

/-- The contents of a data file. -/
def diskBytes (disk : List (CStr × List UInt8)) (filename : CStr) : List UInt8 :=
  (disk.lookup filename).getD []

variable (disk : List (CStr × List UInt8))

def openFd (filename : CStr) : Option ℕ × World :=
  if (disk.lookup filename).isSome then
    (some (above (w.fds.map Prod.fst)),
      { w with fds := (above (w.fds.map Prod.fst), filename) :: w.fds })
  else (none, w)

def lseekEnd (fd : ℕ) : Option ℕ × World :=
  ((w.fds.lookup fd).map fun filename => (diskBytes disk filename).length, w)

def closeFd (fd : ℕ) : World := { w with fds := dropKey fd w.fds }

/-- The file is mapped after the memory in use. -/
def mmap (length : ℤ) (fd : ℕ) : Option ℕ × World :=
  match w.fds.lookup fd with
  | some filename =>
    (some w.mem.length, { w with mem := w.mem ++ (diskBytes disk filename).take length.toNat })
  | none => (none, w)

def time : Option ℕ × World := (some w.clock, w)

/-- The library and the system, where every hdf5 file is the same, without `fork_and_run`. -/
def calls : H5 World where
  fopen _ w := w.fopen
  fcreate _ w := w.fcreate
  fclose fid w := w.gclose fid
  lexists lid group w := w.lexists lid group
  lcopy lid group dst dstgroup w := w.lcopy lid group dst dstgroup
  ldelete lid group w := w.ldelete lid group
  gopen lid group w := w.gopen lid group
  gcreate lid group w := w.gcreate lid group
  gclose gid w := w.gclose gid
  screate length w := w.screate length
  sclose dspace w := w.sclose dspace
  dcreate gid dsetname dspace w := w.dcreate gid dsetname dspace
  dwrite dset data w := w.dwrite dset data
  dclose dset w := w.dclose dset
  access _ w := w.access
  unlink _ w := w.unlink
  openFd filename w := w.openFd disk filename
  lseekEnd fd w := w.lseekEnd disk fd
  closeFd fd w := w.closeFd fd
  mmap length fd w := w.mmap disk length fd
  munmap _ _ w := w
  time w := w.time
  forkAndRun _ w := (0, w)

end World

end Tesd
