/-!
# Paths

A `Path` is what a user writes, with empty and `.` components left out. `..` stays, because what it
means depends on the disk.

* `Path.ofString`, `Path.text` : from and to written form; the empty path is `.`;
* `Path.name`, `Path.parent`, `Path.child` : the last component and the rest;
* `stem`, `suffix` : a file name up to, and from, its last dot.
-/

namespace HackVm

structure Path where
  /-- The number of leading slashes: none for a relative path, and otherwise one, or exactly two
  where two were written. -/
  slashes : Nat := 0
  parts : List String
deriving DecidableEq, Repr

/-- The stem and the suffix of a file name. The suffix starts at the last dot; a dot that is the
first or the last character starts none. -/
def splitSuffix (name : String) : String × String :=
  let cs := name.toList.reverse
  let ending := cs.takeWhile (· != '.')
  match cs.dropWhile (· != '.') with
  | _ :: before =>
    if before.isEmpty || ending.isEmpty then (name, "")
    else (String.ofList before.reverse, "." ++ String.ofList ending.reverse)
  | [] => (name, "")

def stem (name : String) : String := (splitSuffix name).1

/-- The suffix of a file name, with its dot. -/
def suffix (name : String) : String := (splitSuffix name).2

namespace Path

def ofString (s : String) : Path :=
  let slashes := (s.toList.takeWhile (· == '/')).length
  { slashes := if slashes ≤ 2 then slashes else 1
    parts := ((s.toList.splitOn '/').map String.ofList).filter fun p => p != "" && p != "." }

def text (p : Path) : String :=
  if p.slashes = 0 ∧ p.parts = [] then "."
  else String.ofList (List.replicate p.slashes '/') ++ "/".intercalate p.parts

/-- The last component; empty if there is none. -/
def name (p : Path) : String := p.parts.getLastD ""

def parent (p : Path) : Path := { p with parts := p.parts.dropLast }

def child (p : Path) (name : String) : Path := { p with parts := p.parts ++ [name] }

/-- The path with another suffix in place of its own, if it has one. -/
def withSuffix (p : Path) (s : String) : Path := p.parent.child (stem p.name ++ s)

/-- No file can have this path, because it holds a null character. -/
def HasNull (p : Path) : Prop := p.parts.any (fun s => s.toList.contains '\x00')

instance (p : Path) : Decidable p.HasNull := inferInstanceAs (Decidable (_ = true))

end Path

end HackVm
