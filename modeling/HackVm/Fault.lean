import HackVm.Command

/-!
# Faults

`Fault` lists why a command has no code, or no place in the program being emitted, and
`Fault.message` is the wording. `Misuse` is the wording for an operator that was handed to the
code of another category.
-/

namespace HackVm

inductive Fault where
  | unknownOperator (word : String)
  | unknownSegment (word : String)
  | popConstant
  /-- The segment has a fixed size, with `last` as its largest index. -/
  | indexOutOfRange (segment : Segment) (last : Nat) (index : Int)
  /-- The kind of command does not access a segment. -/
  | notAnAccess (kind : Kind)
  /-- The value, shown here, is no command. -/
  | notACommand (shown : String)
  /-- The label has been defined before. -/
  | labelTwice (name : String)
  /-- The label is the symbol of a static variable in use. -/
  | labelIsStatic (name : String)
  /-- The symbol of the static variable is a label. -/
  | staticIsLabel (name : String)
  /-- A number has too many digits for the symbol, the comment or the message it belongs to. -/
  | overlong
deriving DecidableEq, Repr

def Fault.message : Fault → String
  | .unknownOperator w => "unknown arithmetic command: " ++ w
  | .unknownSegment w => w ++ " is not a valid segment"
  | .popConstant => "pop cannot target the constant segment"
  | .indexOutOfRange s last i =>
    s.word ++ " index out of range 0.." ++ toString last ++ ": " ++ Numeral.text i
  | .notAnAccess k => "CommandKind." ++ k.name ++ " neither push nor pop"
  | .notACommand shown => "not a VM command: " ++ shown
  | .labelTwice n => "label defined twice: " ++ n
  | .labelIsStatic n => "label " ++ n ++ " clashes with a static variable"
  | .staticIsLabel n => "static variable " ++ n ++ " clashes with a label"
  | .overlong => Numeral.Overlong.written.message

def Segment.read (w : String) : Except Fault Segment :=
  match Segment.ofWord? w with
  | some s => .ok s
  | none => .error (.unknownSegment w)

def Operator.read (w : String) : Except Fault Operator :=
  match Operator.ofWord? w with
  | some o => .ok o
  | none => .error (.unknownOperator w)

/-! ## Operators in the wrong place -/

/-- Why an operator does not fit the code asked for. -/
inductive Misuse where
  | wrongCategory (operator : Operator) (wanted : Category)
  /-- A comparison was to be generated without a number for its labels. -/
  | noOrdinal (operator : Operator)
deriving DecidableEq, Repr

def Misuse.message : Misuse → String
  | .wrongCategory o c => o.word ++ " is not a " ++ c.word ++ " operator"
  | .noOrdinal o => o.word ++ " needs a label ordinal"

namespace Operator

def asUnary : Operator → Except Misuse Unary
  | .unary u => .ok u
  | o => .error (.wrongCategory o .unary)

def asBinary : Operator → Except Misuse Binary
  | .binary b => .ok b
  | o => .error (.wrongCategory o .binary)

def asComparison : Operator → Except Misuse Comparison
  | .compare c => .ok c
  | o => .error (.wrongCategory o .comparison)

end Operator

end HackVm
