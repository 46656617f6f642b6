import HackVm.Block.Control

/-!
# Emitting a program

An `Emitter` holds the listing so far and what the code of the next command depends on: the current
file and function, the numbers for comparison and return labels, and all labels and static symbols
in use. Labels and static variables share the assembler's one set of symbols, so a symbol that is
both is a fault. A number that has too many digits to be written is one too.

* `Order` : everything an emitter can be told to do;
* `Emitter.run` : carries out an order; a fault leaves the listing and the symbols as they were, but
  not the numbers and the function;
* `Emitter.runAll` : carries out the commands of a file up to the first fault.
-/

namespace HackVm

structure Options where
  /-- Start by setting the stack pointer and calling the entry function. -/
  bootstrap : Bool := true
  /-- Put each command as a comment before its code. -/
  annotate : Bool := false
  /-- What the stack pointer starts with. -/
  stackBase : Operand := .number 256
  entry : String := "Sys.init"
deriving DecidableEq, Repr

/-- A program being emitted. -/
structure Emitter where
  options : Options := {}
  listing : Listing := {}
  file : String := ""
  /-- The enclosing function, if any. -/
  function : Option String := none
  /-- The number of comparisons so far. -/
  comparisons : Nat := 0
  /-- The number of calls so far. -/
  calls : Nat := 0
  /-- The labels defined so far. -/
  labels : List String := []
  /-- The static symbols referred to so far. -/
  statics : List String := []
deriving DecidableEq, Repr

/-- What an emitter can be told to do. -/
inductive Order where
  /-- Go on with another file, outside of any function. -/
  | enter (file : String)
  | bootstrap
  /-- Emit a command, with a comment if the options ask for it. -/
  | command (c : Command)
  /-- Emit the code of a command without a comment. -/
  | bare (c : Command)
  /-- Emit an access given by its kind and the word for its segment, without a comment. -/
  | access (kind : Kind) (segment : String) (index : Int)
  /-- Emit an operator given by its word, without a comment. -/
  | operator (word : String)
  /-- Emit something that is no command. -/
  | foreign (shown : String)
deriving DecidableEq, Repr

namespace Emitter

/-! ## The code of a command -/

def nextComparison (e : Emitter) : Emitter × Nat :=
  ({ e with comparisons := e.comparisons + 1 }, e.comparisons)

def nextCall (e : Emitter) : Emitter × Nat :=
  ({ e with calls := e.calls + 1 }, e.calls)

/-- The emitter after its code refers to static variable `index`, unless the symbol is a label. -/
def useStatic (e : Emitter) (index : Int) : Except Fault Emitter :=
  let symbol := Naming.static e.file index
  if symbol ∈ e.labels then .error (.staticIsLabel symbol)
  else .ok { e with statics := e.statics.insert symbol }

/-- Checks the segment of an access whose code is already there. -/
def withSegment (e : Emitter) (segment : Segment) (index : Int)
    (code : Except Fault (List Instruction)) : Emitter × Except Fault (List Instruction) :=
  match code with
  | .error f => (e, .error f)
  | .ok code =>
    if segment = .static then
      match e.useStatic index with
      | .ok e => (e, .ok code)
      | .error f => (e, .error f)
    else (e, .ok code)

def operatorCode (e : Emitter) : Operator → Emitter × Except Fault (List Instruction)
  | .unary u => (e, .ok (Block.unary u))
  | .binary b => (e, .ok (Block.binary b))
  | .compare c =>
    let (e, n) := e.nextComparison
    (e, .ok (Block.compare c (some n)))

/-- The code of a command, and the emitter with the numbers, the function and the static symbols
that go with it. -/
def code (e : Emitter) : Command → Emitter × Except Fault (List Instruction)
  | .push s i => e.withSegment s i (Block.push s i e.file)
  | .pop s i => e.withSegment s i (Block.pop s i e.file)
  | .operate o => e.operatorCode o
  | .label n => (e, .ok (Block.label e.file e.function n))
  | .goto n => (e, .ok (Block.goto e.file e.function n))
  | .ifGoto n => (e, .ok (Block.ifGoto e.file e.function n))
  | .function n k => ({ e with function := some n }, .ok (Block.function n k))
  | .call n k =>
    let (e, i) := e.nextCall
    (e, .ok (Block.call n k (some i)))
  | .ret => (e, .ok Block.ret)

/-- The numbers in the labels that the code of a command defines. -/
def ordinals (e : Emitter) : Command → List Int
  | .operate (.compare _) => [e.comparisons]
  | .call .. => [e.calls]
  | _ => []

/-! ## Emission -/

def clash? (e : Emitter) (name : String) : Option Fault :=
  if name ∈ e.labels then some (.labelTwice name)
  else if name ∈ e.statics then some (.labelIsStatic name)
  else none

/-- The comment before a block, if there is one and comments are asked for. -/
def annotation (e : Emitter) (note : Option String) : List Instruction :=
  match note with
  | some t => if e.options.annotate then [.comment t] else []
  | none => []

/-- Adds a block to the listing, unless one of its labels clashes. -/
def emit (e : Emitter) (note : Option String) (code : List Instruction) : Emitter × Option Fault :=
  match (labelNames code).findSome? e.clash? with
  | some f => (e, some f)
  | none =>
    ({ e with
        labels := labelNames code ++ e.labels
        listing := e.listing.append (e.annotation note ++ code) }, none)

/-- Adds a block that may be missing, if the numbers in its labels and in its comment can be written.
The comment is made up even where none is asked for. -/
def emitCode (note : Option String) (numbers : List Int) :
    Emitter × Except Fault (List Instruction) → Emitter × Option Fault
  | (e, .ok code) =>
    if ∀ n ∈ numbers, Numeral.Fits n then e.emit note code else (e, some .overlong)
  | (e, .error f) => (e, some f)

/-- The command that an access by words stands for. -/
def access (kind : Kind) (segment : String) (index : Int) : Except Fault Command :=
  match kind with
  | .push => (Segment.read segment).map fun s => .push s index
  | .pop => (Segment.read segment).map fun s => .pop s index
  | k => .error (.notAnAccess k)

def run (e : Emitter) : Order → Emitter × Option Fault
  | .enter file => ({ e with file := file, function := none }, none)
  | .bootstrap =>
    let (e, n) := e.nextCall
    emitCode (some "bootstrap") [n]
      (e, .ok (Block.bootstrap e.options.stackBase e.options.entry (some n)))
  | .command c => emitCode (some c.text) (c.numbers ++ e.ordinals c) (e.code c)
  | .bare c => emitCode none (e.ordinals c) (e.code c)
  | .access kind segment index => match access kind segment index with
    | .ok c => emitCode none (e.ordinals c) (e.code c)
    | .error f => (e, some f)
  | .operator word => match Operator.read word with
    | .ok o => emitCode none (e.ordinals (.operate o)) (e.code (.operate o))
    | .error f => (e, some f)
  | .foreign shown => (e, some (.notACommand shown))

/-- Carries out the orders for a list of commands, up to the first fault. -/
def runAll (e : Emitter) : List Command → Emitter × Option Fault
  | [] => (e, none)
  | c :: cs => match e.run (.command c) with
    | (e, none) => e.runAll cs
    | (e, some f) => (e, some f)

end Emitter

end HackVm
