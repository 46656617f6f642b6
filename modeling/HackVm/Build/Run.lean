import HackVm.Build.Source
import HackVm.Emitter

/-!
# Building a listing

* `Event` : what a build tells while it goes on;
* `Stop` : why there is no listing: diagnostics for the user, or a failure;
* `buildSources` : all sources, in order, into one listing;
* `buildPath` : the sources of a path into a listing that is written to the disk.
-/

namespace HackVm.Build

inductive Event where
  /-- A source has been read and its commands come next. -/
  | entered (stem : String)
  /-- All commands of a source have been emitted. -/
  | finished (name : String) (commands : Nat)
  /-- All sources are done. -/
  | total (instructions : Nat)
deriving DecidableEq, Repr

/-- The event is told only on request. -/
def Event.isDetail : Event → Bool
  | .entered _ => true
  | .finished .. => false
  | .total _ => true

def Event.message : Event → String
  | .entered s => "current file: " ++ s
  | .finished n k => "translated " ++ n ++ " (" ++ toString k ++ " commands)"
  | .total n => "instructions: " ++ toString n

/-- What the user is told about a build without a listing. -/
inductive Diagnostic where
  /-- A line of the file `name` is bad. -/
  | badLine (name : String) (complaint : Complaint)
  /-- The directory holds no sources. -/
  | noSources (path : Path)
deriving DecidableEq, Repr

def Diagnostic.message : Diagnostic → String
  | .badLine n c => "[parse error] " ++ n ++ ": line=" ++ toString c.line ++ " col=" ++ toString c.column
      ++ ": " ++ c.message
  | .noSources p => "[io error] no .vm files in " ++ p.text

inductive Stop where
  | refused (diagnostics : List Diagnostic)
  | failed (failure : Failure)
deriving DecidableEq, Repr

/-! ## Sources -/

/-- Emits the statements of one source, as far as there is memory for them. -/
def emitSource (host : Host) (e : Emitter) (p : Path) (statements : List Statement) :
    List Event × Except Stop Emitter :=
  let events := [Event.entered (stem p.name)]
  let commands := statements.map (·.command)
  let count := host.capacity e.listing commands
  match (e.run (.enter (stem p.name))).1.runAll (commands.take count) with
  | (_, some f) => (events, .error (.failed (.fault f)))
  | (e, none) =>
    if commands.length ≤ count then (events ++ [.finished p.name statements.length], .ok e)
    else (events, .error (.failed .noMemory))

def buildSource (host : Host) (d : Disk) (block : Option Int) (e : Emitter) (p : Path) :
    List Event × Except Stop Emitter :=
  match readSource host.openText d block p with
  | .error f => ([], .error (.failed f))
  | .ok text => match Script.read text with
    | .accepted statements => emitSource host e p statements
    | .refused complaints => ([], .error (.refused (complaints.map (.badLine p.name))))
    | .overlong phrase o => ([], .error (.failed (.unreadable phrase o)))

/-- Builds sources one after the other, up to the first that does not go through. -/
def buildAll (host : Host) (d : Disk) (block : Option Int) (e : Emitter) :
    List Path → List Event × Except Stop Emitter
  | [] => ([.total e.listing.codeSize], .ok e)
  | p :: ps => match buildSource host d block e p with
    | (events, .error s) => (events, .error s)
    | (events, .ok e) =>
      let (more, result) := buildAll host d block e ps
      (events ++ more, result)

def start (o : Options) : Emitter × Option Fault :=
  let e : Emitter := { options := o }
  if o.bootstrap then e.run .bootstrap else (e, none)

def buildSources (host : Host) (d : Disk) (o : Options) (block : Option Int) (sources : List Path) :
    List Event × Except Stop Listing :=
  match start o with
  | (_, some f) => ([], .error (.failed (.fault f)))
  | (e, none) =>
    let (events, result) := buildAll host d block e sources
    (events, result.map (·.listing))

/-! ## Paths -/

structure Report where
  events : List Event
  /-- The sources, if they could be told. -/
  sources : List Path
  result : Except Stop Listing
  /-- The disk afterwards. -/
  disk : Disk

def listingBytes (host : Host) (l : Listing) : Except Failure (List UInt8) :=
  if ¬ host.holdsText l then .error .noMemory
  else match l.render with
    | .error o => .error (.unwritable o)
    | .ok text => (host.encode text).mapError .unencodable

/-- Writes a listing. The file is emptied before its bytes are made up, so a listing that has none
leaves it empty. -/
def writeListing (host : Host) (d : Disk) (output : Path) (l : Listing) : Disk × Option Failure :=
  match d.makeDirectories host.nesting output.parent with
  | (d, .error e) => (d, some (.disk e))
  | (d, .ok _) => match d.write output [] with
    | .error e => (d, some (.disk e))
    | .ok d => match listingBytes host l with
      | .error f => (d, some f)
      | .ok bytes => match d.write output bytes with
        | .error e => (d, some (.disk e))
        | .ok d => (d, none)

/-- Where the listing of an input goes: to `output`, or to its usual place. -/
def outputFor (d : Disk) (input : Path) (output : Option Path) : Except DiskError Path :=
  match output with
  | some p => .ok p
  | none => defaultOutput d input

/-- Builds the sources of a path and writes the listing to `output`, or to its usual place. -/
def buildPath (host : Host) (d : Disk) (o : Options) (block : Option Int) (input : Path)
    (output : Option Path) : Report :=
  match collectSources d input with
  | .error f => ⟨[], [], .error (.failed f), d⟩
  | .ok [] => ⟨[], [], .error (.refused [.noSources input]), d⟩
  | .ok sources => match buildSources host d o block sources with
    | (events, .error s) => ⟨events, sources, .error s, d⟩
    | (events, .ok l) => match outputFor d input output with
      | .error e => ⟨events, sources, .error (.failed (.disk e)), d⟩
      | .ok output => match writeListing host d output l with
        | (d, some f) => ⟨events, sources, .error (.failed f), d⟩
        | (d, none) => ⟨events, sources, .ok l, d⟩

end HackVm.Build
