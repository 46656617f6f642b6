import HackVm.Build.Run
import HackVm.CommandLine.Arguments

/-!
# A run of the command line program

`run` maps the host, the disk and the arguments to what is printed, the exit status and the disk afterwards.
A failure that the program has no message for leaves it without a status.
-/

namespace HackVm.CommandLine

/-! ## Fixed texts -/

def usage : String :=
  "usage: vmtrans [-h] [-o OUTPUT] [--no-bootstrap] [--annotate]\n"
    ++ "               [--stack-base STACK_BASE] [--entry ENTRY] [--buf BUF] [-v]\n"
    ++ "               input\n"

def help : String :=
  usage
    ++ "\n"
    ++ "Translate VM code (.vm file or directory) to Hack assembly\n"
    ++ "\n"
    ++ "positional arguments:\n"
    ++ "  input                 Input .vm file or directory of .vm files\n"
    ++ "\n"
    ++ "options:\n"
    ++ "  -h, --help            show this help message and exit\n"
    ++ "  -o OUTPUT, --output OUTPUT\n"
    ++ "                        Output .asm file (default: next to input)\n"
    ++ "  --no-bootstrap        Do not emit SP=256; call Sys.init\n"
    ++ "  --annotate            Emit each VM command as a comment\n"
    ++ "  --stack-base STACK_BASE\n"
    ++ "                        Initial stack pointer\n"
    ++ "  --entry ENTRY         Function called by the bootstrap\n"
    ++ "  --buf BUF             Read buffer size\n"
    ++ "  -v, --verbose         Debug logging\n"

/-! ## Runs -/

inductive Ending where
  | exit (status : Nat)
  /-- A failure without a message. -/
  | escaped (failure : Build.Failure)
deriving DecidableEq, Repr

structure Session where
  ending : Ending
  out : String := ""
  err : String := ""
  disk : Disk

def logText (verbose : Bool) (events : List Build.Event) : String :=
  String.join ((events.filter fun e => verbose || !e.isDetail).map fun e =>
    "[vmtrans] " ++ e.message ++ "\n")

def failureText? : Build.Failure → Option String
  | .fault .overlong => some ("[io error] " ++ Fault.overlong.message ++ "\n")
  | .fault f => some ("[translate error] " ++ f.message ++ "\n")
  | .disk ⟨.nullCharacter, _⟩ =>
    some ("[io error] " ++ DiskError.Cause.nullCharacter.message ++ "\n")
  | .disk _ => none
  | .unreadable .. => none
  | .source (.undecodable e) => some ("[io error] " ++ e.message ++ "\n")
  | .source _ => none
  | .noMemory => none
  | .unprintable _ => none
  | f => some ("[io error] " ++ f.message ++ "\n")

/-- The output that a request names; an empty name counts as none. -/
def Request.outputFor (r : Request) (d : Disk) (input : Path) : Except DiskError Path :=
  Build.outputFor d input ((r.output.filter (· ≠ "")).map Path.ofString)

def countLine (sources : List Path) : String := "OK. files=" ++ toString sources.length

def writtenLine (d : Disk) (output : Path) : String := "OK. asm_written=" ++ (d.lexical output).text

/-- Builds an existing input into `output`. The name of the listing is shown last, and may be one that
cannot be shown. -/
def build (host : Host) (d : Disk) (r : Request) (input output : Path) : Session :=
  let report := Build.buildPath host d r.options r.block input (some output)
  let log := logText r.verbose report.events
  match report.result with
  | .ok _ =>
    let count := countLine report.sources ++ "\n"
    let written := writtenLine report.disk output
    match host.unprintable? written with
    | none => { ending := .exit 0, out := count ++ written ++ "\n", err := log, disk := report.disk }
    | some why => { ending := .escaped (.unprintable why), out := count, err := log, disk := report.disk }
  | .error (.refused ds) =>
    { ending := .exit 2
      err := log ++ String.join (ds.map fun d => d.message ++ "\n")
      disk := report.disk }
  | .error (.failed f) => match failureText? f with
    | some t => { ending := .exit 2, err := log ++ t, disk := report.disk }
    | none => { ending := .escaped f, err := log, disk := report.disk }

def run (host : Host) (d : Disk) (arguments : List String) : Session :=
  match parse arguments with
  | .help => { ending := .exit 0, out := help, disk := d }
  | .refuse e =>
    { ending := .exit 2, err := usage ++ "vmtrans: error: " ++ e.message ++ "\n", disk := d }
  | .proceed input r =>
    let path := Path.ofString input
    match d.entry? path, r.outputFor d path with
    | .error e, _ => { ending := .escaped (.disk e), disk := d }
    | .ok none, _ =>
      { ending := .exit 2, err := "[io error] input not found: " ++ path.text ++ "\n", disk := d }
    | .ok (some _), .error e => { ending := .escaped (.disk e), disk := d }
    | .ok (some _), .ok output => build host d r path output

end HackVm.CommandLine
