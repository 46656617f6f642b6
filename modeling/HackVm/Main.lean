import HackVm.CommandLine.Session

/-!
# The command line program

Loads the part of the file system that the arguments speak of, runs `CommandLine.run` on it, and
carries the changes back.
-/

namespace HackVm.Main

/-- Adds what the file system holds at a location. -/
def load (d : Disk) (l : Location) : IO Disk := do
  let place := (← IO.currentDir) / l.text
  if ← place.isDir then return d.put l .directory
  else if ← place.pathExists then return d.put l (.file (← IO.FS.readBinFile place).toList)
  else return d

def loadPath (d : Disk) (p : Path) : IO Disk :=
  (List.range (p.parts.length + 1)).foldlM (fun d n => load d (d.lexical { p with parts := p.parts.take n })) d

def loadSources (d : Disk) (p : Path) : IO Disk := do
  let l := d.lexical p
  let names := (← ((← IO.currentDir) / l.text).readDir).map (·.fileName)
  (names.filter Build.isSourceName).foldlM (fun d n => load d (l.child n)) d

def loadRequest (d : Disk) (r : CommandLine.Request) (input : Path) : IO Disk := do
  let d ← loadPath d input
  let d ← match d.isDirectory input with
    | .ok true => loadSources d input
    | _ => pure d
  match r.outputFor d input with
  | .ok output => loadPath d output
  | .error _ => return d

/-- Carries the entries that have changed back to the file system, the oldest first. -/
def store (before after : Disk) : IO Unit := do
  for (l, e) in after.entries.reverse do
    if before.at? l ≠ some e then
      let place := (← IO.currentDir) / l.text
      match e with
      | .directory => IO.FS.createDirAll place
      | .file bytes => IO.FS.writeBinFile place ⟨bytes.toArray⟩

def diskFor (arguments : List String) : IO Disk := do
  let here := Path.ofString (← IO.currentDir).toString
  let d ← loadPath { here := .ofNames here.parts } here
  match CommandLine.parse arguments with
  | .proceed input r => loadRequest d r (Path.ofString input)
  | _ => return d

def run (arguments : List String) : IO UInt32 := do
  let d ← diskFor arguments
  let session := CommandLine.run .ample d arguments
  store d session.disk
  IO.print session.out
  IO.eprint session.err
  match session.ending with
  | .exit n => return UInt32.ofNat n
  | .escaped f =>
    IO.eprintln f.message
    return 1

end HackVm.Main

def main (arguments : List String) : IO UInt32 := HackVm.Main.run arguments
