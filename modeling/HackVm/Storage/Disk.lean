import HackVm.Storage.Location
import HackVm.Storage.Path

/-!
# Disks

A `Disk` holds directories and files by their location, and the current directory.

* `Disk.locate` : where a path leads, through existing directories only;
* `Disk.entry?`, `Disk.isDirectory`, `Disk.isFile` : what is there;
* `Disk.read`, `Disk.write`, `Disk.makeDirectories` : files and directories by path;
* `DiskError` : why that fails, with the path it failed for.
-/

namespace HackVm

inductive Entry where
  | directory
  | file (bytes : List UInt8)
deriving DecidableEq, Repr

structure Disk where
  /-- The current directory. -/
  here : Location := .root
  /-- Everything but the root; the first entry for a location counts. -/
  entries : List (Location × Entry) := []
deriving DecidableEq, Repr

inductive DiskError.Cause where
  | missing
  | notDirectory
  | isDirectory
  | occupied
  /-- A name in the path, or the path itself, is too long. -/
  | nameTooLong
  /-- The path holds a null character. -/
  | nullCharacter
  /-- Too many directories on the way are missing. -/
  | tooDeep
deriving DecidableEq, Repr

def DiskError.Cause.message : DiskError.Cause → String
  | .missing => "No such file or directory"
  | .notDirectory => "Not a directory"
  | .isDirectory => "Is a directory"
  | .occupied => "File exists"
  | .nameTooLong => "File name too long"
  | .nullCharacter => "embedded null byte"
  | .tooDeep => "Too many missing directories"

/-- A failed access and the path it was for. -/
structure DiskError where
  cause : DiskError.Cause
  path : Path
deriving DecidableEq, Repr

namespace Disk

/-- What is at a location. The root is always a directory. -/
def at? (d : Disk) (l : Location) : Option Entry :=
  if l = .root then some .directory else d.entries.lookup l

def put (d : Disk) (l : Location) (e : Entry) : Disk :=
  { d with entries := (l, e) :: d.entries.filter (·.1 != l) }

/-- A location holds what was put there, and every other one what it held before. -/
theorem at?_put (d : Disk) {l : Location} (h : l ≠ .root) (e : Entry) (k : Location) :
    (d.put l e).at? k = if k = l then some e else d.at? k := by
  by_cases hk : k = l
  · subst hk
    simp [at?, put, h]
  · have hkl : (k == l) = false := by simp [hk]
    have : (d.entries.filter (·.1 != l)).lookup k = d.entries.lookup k := by
      induction d.entries with
      | nil => rfl
      | cons p ps ih =>
        obtain ⟨q, v⟩ := p
        by_cases hq : q = l
        · simp [List.lookup_cons, hq, hkl, ih]
        · simp [List.lookup_cons, hq, ih]
    simp [at?, put, hk, hkl, this, List.lookup_cons]

def nameLimit : Nat := 255

/-- The number of bytes that a path has to stay below. -/
def pathLimit : Nat := 4096

/-- Goes from a location along components. Each step starts in an existing directory; the last one
may lead to something that does not exist. -/
def walk (d : Disk) : Location → List String → Except DiskError.Cause Location
  | l, [] => .ok l
  | l, part :: parts => match d.at? l with
    | none => .error .missing
    | some (.file _) => .error .notDirectory
    | some .directory =>
      if nameLimit < part.utf8ByteSize then .error .nameTooLong
      else d.walk (l.step part) parts

def origin (d : Disk) (p : Path) : Location := if p.slashes = 0 then d.here else .root

def locate (d : Disk) (p : Path) : Except DiskError.Cause Location :=
  if p.HasNull then .error .nullCharacter
  else if pathLimit ≤ p.text.utf8ByteSize then .error .nameTooLong
  else d.walk (d.origin p) p.parts

/-- Where a path leads when `..` is taken to undo the component before it, whatever exists. -/
def lexical (d : Disk) (p : Path) : Location :=
  p.parts.foldl Location.step (d.origin p)

/-- What a path leads to, if that exists. Whether it does cannot be told if a name is too long. -/
def entry? (d : Disk) (p : Path) : Except DiskError (Option Entry) :=
  match d.locate p with
  | .ok l => .ok (d.at? l)
  | .error .nameTooLong => .error ⟨.nameTooLong, p⟩
  | .error _ => .ok none

def isDirectory (d : Disk) (p : Path) : Except DiskError Bool :=
  (d.entry? p).map fun e => e == some .directory

def isFile (d : Disk) (p : Path) : Except DiskError Bool :=
  (d.entry? p).map fun e => e.isSome && e != some .directory

/-- The name of a child of `l`, if `m` is the location of one. -/
def childOf? (l m : Location) : Option String :=
  if m.parent = l then m.name? else none

def names (d : Disk) (l : Location) : List String := d.entries.filterMap fun e => childOf? l e.1

def read (d : Disk) (p : Path) : Except DiskError (List UInt8) :=
  match d.locate p with
  | .error c => .error ⟨c, p⟩
  | .ok l => match d.at? l with
    | none => .error ⟨.missing, p⟩
    | some .directory => .error ⟨.isDirectory, p⟩
    | some (.file bytes) => .ok bytes

/-- Writes a file, which need not exist yet. -/
def write (d : Disk) (p : Path) (bytes : List UInt8) : Except DiskError Disk :=
  match d.locate p with
  | .error c => .error ⟨c, p⟩
  | .ok l =>
    if d.at? l = some .directory then .error ⟨.isDirectory, p⟩
    else .ok (d.put l (.file bytes))

/-- Makes the directory of a path that leads to `l`, unless it is there. -/
def makeAt (d : Disk) (p : Path) (l : Location) : Disk × Except DiskError Location :=
  match d.at? l with
  | some .directory => (d, .ok l)
  | some (.file _) => (d, .error ⟨.occupied, p⟩)
  | none => (d.put l .directory, .ok l)

/-- Makes the directory of a path whose parent leads to the directory `l`, unless it is there. -/
def makeIn (d : Disk) (p : Path) (l : Location) : Disk × Except DiskError Location :=
  if nameLimit < p.name.utf8ByteSize then (d, .error ⟨.nameTooLong, p⟩)
  else d.makeAt p (l.step p.name)

/-- Makes a directory and those above it as far as they are missing, at most `count` in all, and
tells where it is. If that fails, those made before stay. -/
def makeDirectories (d : Disk) : Nat → Path → Disk × Except DiskError Location
  | 0, p => (d, .error ⟨.tooDeep, p⟩)
  | count + 1, p => match d.locate p with
    | .ok l => d.makeAt p l
    | .error .missing =>
      if p.parts = [] then (d, .error ⟨.missing, p⟩)
      else match d.makeDirectories count p.parent with
        | (d, .ok l) => d.makeIn p l
        | (d, .error e) => (d, .error e)
    | .error c => (d, .error ⟨c, p⟩)

end Disk

end HackVm
