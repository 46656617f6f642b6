import HackVm.Fault
import HackVm.Line.Reader

/-!
# What a line says

* `Phrase` : a command as it is written, its words not yet looked up;
* `Phrase.read` : the phrase of a line, or nothing for a blank line;
* `Phrase.resolve` : the command that a phrase stands for;
* `Line.read` : the statement of a line.
-/

namespace HackVm

/-- A command as it is written. Numbers are kept as their digits. -/
inductive Phrase where
  | push (segment digits : List Char)
  | pop (segment digits : List Char)
  | operate (word : List Char)
  | label (name : List Char)
  | goto (name : List Char)
  | ifGoto (name : List Char)
  | function (name digits : List Char)
  | call (name digits : List Char)
  | ret
deriving DecidableEq, Repr

namespace Phrase
open Line

/-- The segment and the number after `push` or `pop`. -/
def readAccess (t : Token) (c : Cursor) : Except Misreading (List Char × List Char) := do
  let (segment, c) ← c.next .segment t
  let (number, c) ← c.next .number segment
  c.finish number
  return (segment.text, number.text)

/-- The name after `label`, `goto` or `if-goto`. -/
def readName (t : Token) (c : Cursor) : Except Misreading (List Char) := do
  let (name, c) ← c.next .name t
  c.finish name
  return name.text

/-- The name and the number after `function` or `call`. -/
def readCount (t : Token) (c : Cursor) : Except Misreading (List Char × List Char) := do
  let (name, c) ← c.next .name t
  let (number, c) ← c.next .number name
  c.finish number
  return (name.text, number.text)

def readFrom (t : Token) (c : Cursor) : Except Misreading Phrase :=
  match t.kind with
  | .push => (readAccess t c).map fun r => .push r.1 r.2
  | .pop => (readAccess t c).map fun r => .pop r.1 r.2
  | .label => (readName t c).map .label
  | .goto => (readName t c).map .goto
  | .ifGoto => (readName t c).map .ifGoto
  | .function => (readCount t c).map fun r => .function r.1 r.2
  | .call => (readCount t c).map fun r => .call r.1 r.2
  | .ret => (c.finish t).map fun _ => .ret
  | .word | .name | .number => (c.finish t).map fun _ => .operate t.text

/-- The phrase of a line; a line of blanks and a comment has none. -/
def read (line : List Char) : Except Misreading (Option Phrase) :=
  match (Cursor.ofLine line).next? .start none with
  | .error e => .error e
  | .ok none => .ok none
  | .ok (some (t, c)) => (readFrom t c).map some

/-! ## Commands -/

/-- Why a phrase is no command. -/
inductive Cause where
  | fault (f : Fault)
  | overlong (o : Numeral.Overlong)
deriving DecidableEq, Repr

def Cause.message : Cause → String
  | .fault f => f.message
  | .overlong o => o.message

def value (digits : List Char) : Except Cause Int :=
  match Numeral.ofDigits digits with
  | .ok n => .ok n
  | .error e => .error (.overlong e)

def segmentOf (w : List Char) : Except Cause Segment := (Segment.read (String.ofList w)).mapError .fault

/-- The command that a phrase stands for. The segment is looked at before the number. -/
def resolve : Phrase → Except Cause Command
  | .push s ds => do
    let s ← segmentOf s
    return .push s (← value ds)
  | .pop s ds => do
    let s ← segmentOf s
    if s = .constant then throw (.fault .popConstant)
    return .pop s (← value ds)
  | .operate w => ((Operator.read (String.ofList w)).mapError .fault).map .operate
  | .label n => .ok (.label (String.ofList n))
  | .goto n => .ok (.goto (String.ofList n))
  | .ifGoto n => .ok (.ifGoto (String.ofList n))
  | .function n ds => (value ds).map (.function (String.ofList n))
  | .call n ds => (value ds).map (.call (String.ofList n))
  | .ret => .ok .ret

/-- The rule of the grammar that a phrase follows. -/
def rule : Phrase → String
  | .push .. => "push"
  | .pop .. => "pop"
  | .operate _ => "arithmetic"
  | .label _ => "label"
  | .goto _ => "goto"
  | .ifGoto _ => "if_goto"
  | .function .. => "function"
  | .call .. => "call"
  | .ret => "return_"

end Phrase

namespace Line

inductive Error where
  /-- The line follows no rule of the grammar. -/
  | misread (m : Misreading)
  /-- The line can be read, but stands for no command. -/
  | rejected (phrase : Phrase) (cause : Phrase.Cause)
deriving DecidableEq, Repr

def Error.message : Error → String
  | .misread m => m.message
  | .rejected p c => "Error trying to process rule \"" ++ p.rule ++ "\":\n\n" ++ c.message

/-- The statement of a line, numbered `number`; a blank line has none. -/
def read (line : List Char) (number : Int) : Except Error (Option Statement) :=
  match Phrase.read line with
  | .error m => .error (.misread m)
  | .ok none => .ok none
  | .ok (some p) => match p.resolve with
    | .ok c => .ok (some ⟨number, c⟩)
    | .error e => .error (.rejected p e)

end Line

end HackVm
