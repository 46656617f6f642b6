import HackVm.Host
import HackVm.Script

/-!
# Sources and outputs of a build

* `Failure` : everything that ends a build for good;
* `collectSources` : the `.vm` files that a path stands for;
* `defaultOutput` : where the listing goes if nothing else is said;
* `readSource` : the text of a source.
-/

namespace HackVm.Build

inductive Failure where
  /-- A command has no code, or no place in the program. -/
  | fault (f : Fault)
  /-- The path is neither a directory nor the name of a `.vm` file. -/
  | notASource (path : Path)
  /-- The text of a source cannot be read. -/
  | source (e : Text.ReadError)
  /-- A number in a source is too long to be read. -/
  | unreadable (phrase : Phrase) (o : Numeral.Overlong)
  /-- A number in the listing is too long to be written. -/
  | unwritable (o : Numeral.Overlong)
  /-- There is no memory for the code or for the text of the listing. -/
  | noMemory
  /-- The text of the listing cannot be encoded. -/
  | unencodable (why : String)
  /-- The name of the listing cannot be shown. -/
  | unprintable (why : String)
  | disk (e : DiskError)
deriving DecidableEq, Repr

def Failure.message : Failure → String
  | .fault f => f.message
  | .notASource p => "not a .vm file: " ++ p.text
  | .source e => e.message
  | .unreadable p o => (Line.Error.rejected p (.overlong o)).message
  | .unwritable o => o.message
  | .noMemory => ""
  | .unencodable why => why
  | .unprintable why => why
  | .disk e => e.cause.message

def sourceSuffix : String := ".vm"

/-- The name ends in the suffix of source files, also if nothing stands before it. -/
def isSourceName (name : String) : Bool := name.toList.reverse.take 3 == ['m', 'v', '.']

/-- The order of names by code points, character by character. -/
def nameLE : List Char → List Char → Bool
  | [], _ => true
  | _ :: _, [] => false
  | a :: as, b :: bs => a.toNat < b.toNat || (a.toNat == b.toNat && nameLE as bs)

/-- The files of a directory whose names end in `.vm`, ordered by code points. -/
def sourcesIn (d : Disk) (p : Path) : Except DiskError (List Path) :=
  match d.locate p with
  | .error _ => .ok []
  | .ok l =>
    let names := ((d.names l).filter isSourceName).mergeSort fun a b => nameLE a.toList b.toList
    (names.map p.child).filterM d.isFile

/-- The sources that a path stands for: all of a directory, or the file itself, which need not
exist. -/
def collectSources (d : Disk) (p : Path) : Except Failure (List Path) :=
  match d.isDirectory p with
  | .error e => .error (.disk e)
  | .ok true => (sourcesIn d p).mapError .disk
  | .ok false => if suffix p.name = sourceSuffix then .ok [p] else .error (.notASource p)

def outputSuffix : String := ".asm"

/-- The listing of a directory lies in it and has its name; that of a file lies beside it. -/
def defaultOutput (d : Disk) (p : Path) : Except DiskError Path :=
  (d.isDirectory p).map fun isDirectory =>
    if isDirectory then p.child ((d.lexical p).name?.getD "" ++ outputSuffix)
    else p.withSuffix outputSuffix

def defaultBlock : Int := 64 * 1024

/-- The text of a source, read in blocks of `block` characters from the file that `layer` opens. -/
def readSource (layer : List UInt8 → Text.Opened) (d : Disk) (block : Option Int) (p : Path) :
    Except Failure (List Char) :=
  match d.read p with
  | .error e => .error (.disk e)
  | .ok bytes => ((layer bytes).readAll block).mapError .source

end HackVm.Build
