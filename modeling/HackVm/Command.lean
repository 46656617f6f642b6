import HackVm.Text.Numeral

/-!
# Commands of the stack machine

* `Segment` : the eight memory segments, grouped by how a cell of theirs is addressed;
* `Operator` : the nine operators, grouped by what they take from the stack;
* `Command` : the nine kinds of command, with `Command.text` as its source form, which can be written
  if `Command.Fits`;
* `Statement` : a command together with the line it stands on.
-/

namespace HackVm

/-! ## Segments -/

/-- The segments that start where a base cell points. -/
inductive Base where
  | lcl
  | arg
  | this
  | that
deriving DecidableEq, Repr

inductive Segment where
  /-- Holds every number at its own index; cannot be written. -/
  | constant
  /-- Starts where its base cell points. -/
  | based (b : Base)
  /-- The base cells of `this` and `that`. -/
  | pointer
  /-- Eight scratch cells. -/
  | temp
  /-- The variables of one file. -/
  | static
deriving DecidableEq, Repr

namespace Segment

def all : List Segment :=
  [.constant, .based .lcl, .based .arg, .based .this, .based .that, .pointer, .temp, .static]

/-- The word that names the segment in source text. -/
def word : Segment → String
  | .constant => "constant"
  | .based .lcl => "local"
  | .based .arg => "argument"
  | .based .this => "this"
  | .based .that => "that"
  | .pointer => "pointer"
  | .temp => "temp"
  | .static => "static"

def ofWord? (w : String) : Option Segment := all.find? fun s => s.word = w

theorem ofWord?_word (s : Segment) : ofWord? s.word = some s := by
  cases s with
  | based b => cases b <;> rfl
  | _ => rfl

def addressing : Segment → String
  | .constant => "literal"
  | .based _ => "dynamic"
  | .pointer => "fixed"
  | .temp => "fixed"
  | .static => "static"

end Segment

/-! ## Operators -/

/-- Operators on the topmost word. -/
inductive Unary where
  | neg
  | not
deriving DecidableEq, Repr

/-- Operators on the two topmost words. -/
inductive Binary where
  | add
  | sub
  | and
  | or
deriving DecidableEq, Repr

/-- Tests on the two topmost words. -/
inductive Comparison where
  | eq
  | gt
  | lt
deriving DecidableEq, Repr

/-- What an operator takes from the stack and leaves there. -/
inductive Category where
  | unary
  | binary
  | comparison
deriving DecidableEq, Repr

def Category.word : Category → String
  | .unary => "unary"
  | .binary => "binary"
  | .comparison => "comparison"

inductive Operator where
  | unary (u : Unary)
  | binary (b : Binary)
  | compare (c : Comparison)
deriving DecidableEq, Repr

namespace Operator

def all : List Operator :=
  [.binary .add, .binary .sub, .unary .neg, .compare .eq, .compare .gt, .compare .lt, .binary .and,
    .binary .or, .unary .not]

def word : Operator → String
  | .binary .add => "add"
  | .binary .sub => "sub"
  | .unary .neg => "neg"
  | .compare .eq => "eq"
  | .compare .gt => "gt"
  | .compare .lt => "lt"
  | .binary .and => "and"
  | .binary .or => "or"
  | .unary .not => "not"

def ofWord? (w : String) : Option Operator := all.find? fun o => o.word = w

theorem ofWord?_word (o : Operator) : ofWord? o.word = some o := by
  cases o with
  | unary u => cases u <;> rfl
  | binary b => cases b <;> rfl
  | compare c => cases c <;> rfl

def category : Operator → Category
  | .unary _ => .unary
  | .binary _ => .binary
  | .compare _ => .comparison

end Operator

/-! ## Commands -/

/-- A command. Indices and counts are integers of any size; only the code generated for them may
be refused. -/
inductive Command where
  | push (segment : Segment) (index : Int)
  | pop (segment : Segment) (index : Int)
  | operate (operator : Operator)
  | label (name : String)
  | goto (name : String)
  | ifGoto (name : String)
  | function (name : String) (locals : Int)
  | call (name : String) (arguments : Int)
  | ret
deriving DecidableEq, Repr

inductive Kind where
  | push
  | pop
  | operate
  | label
  | goto
  | ifGoto
  | function
  | call
  | ret
deriving DecidableEq, Repr

def Kind.name : Kind → String
  | .push => "PUSH"
  | .pop => "POP"
  | .operate => "ARITHMETIC"
  | .label => "LABEL"
  | .goto => "GOTO"
  | .ifGoto => "IF"
  | .function => "FUNCTION"
  | .call => "CALL"
  | .ret => "RETURN"

namespace Command

def kind : Command → Kind
  | .push .. => .push
  | .pop .. => .pop
  | .operate _ => .operate
  | .label _ => .label
  | .goto _ => .goto
  | .ifGoto _ => .ifGoto
  | .function .. => .function
  | .call .. => .call
  | .ret => .ret

/-- The source form of a command: its words with one blank between them. It can be written if the command
`Fits`. -/
def text : Command → String
  | .push s i => "push " ++ s.word ++ " " ++ Numeral.text i
  | .pop s i => "pop " ++ s.word ++ " " ++ Numeral.text i
  | .operate o => o.word
  | .label n => "label " ++ n
  | .goto n => "goto " ++ n
  | .ifGoto n => "if-goto " ++ n
  | .function n k => "function " ++ n ++ " " ++ Numeral.text k
  | .call n k => "call " ++ n ++ " " ++ Numeral.text k
  | .ret => "return"

/-- The numbers in the source form. -/
def numbers : Command → List Int
  | .push _ i => [i]
  | .pop _ i => [i]
  | .function _ k => [k]
  | .call _ k => [k]
  | _ => []

def Fits (c : Command) : Prop := ∀ n ∈ c.numbers, Numeral.Fits n

instance (c : Command) : Decidable c.Fits := inferInstanceAs (Decidable (∀ n ∈ c.numbers, _))

end Command

/-- A command and the number of the line it was read from. -/
structure Statement where
  line : Int
  command : Command
deriving DecidableEq, Repr

end HackVm
