import HackVm.Fault
import HackVm.Instruction
import HackVm.Naming

/-!
# Code that works on the stack

The stack grows upwards, and the cell `SP` holds the address after its top.

* `pushD`, `popD` : the data register to and from the stack;
* `push`, `pop` : a cell of a segment to and from the stack;
* `unary`, `binary`, `compare` : the operators, on the words at the top.
-/

namespace HackVm

def Base.cell : Base → String
  | .lcl => "LCL"
  | .arg => "ARG"
  | .this => "THIS"
  | .that => "THAT"

def Unary.comp : Unary → String
  | .neg => "-M"
  | .not => "!M"

/-- What a binary operator computes from the deeper word, in memory, and the upper one, in the data
register. -/
def Binary.comp : Binary → String
  | .add => "D+M"
  | .sub => "M-D"
  | .and => "D&M"
  | .or => "D|M"

/-- The jump that is taken when the deeper word minus the upper one satisfies a comparison. -/
def Comparison.condition : Comparison → String
  | .eq => "JEQ"
  | .gt => "JGT"
  | .lt => "JLT"

namespace Block
open Instruction

def pushD : List Instruction :=
  [symbol "SP", assign "A" "M", assign "M" "D", symbol "SP", assign "M" "M+1"]

def popD : List Instruction :=
  [symbol "SP", assign "AM" "M-1", assign "D" "M"]

/-! ## Segments -/

/-- The cell of a segment of fixed size that starts at `base`. -/
def fixedCell (segment : Segment) (base last : Nat) (index : Int) : Except Fault Int :=
  if 0 ≤ index ∧ index ≤ last then .ok (base + index)
  else if Numeral.Fits index then .error (.indexOutOfRange segment last index)
  else .error .overlong

/-- The cell `index` of `pointer`: cells 3 and 4. -/
def pointerCell (index : Int) : Except Fault Int := fixedCell .pointer 3 1 index

/-- The cell `index` of `temp`: cells 5 to 12. -/
def tempCell (index : Int) : Except Fault Int := fixedCell .temp 5 7 index

def staticCell (file : String) (index : Int) : Except Fault String :=
  if Numeral.Fits index then .ok (Naming.static file index) else .error .overlong

theorem staticCell_eq_ok {file : String} {index : Int} {name : String} :
    staticCell file index = .ok name ↔ Numeral.Fits index ∧ name = Naming.static file index := by
  unfold staticCell
  split
  · next h => simp [h, eq_comm]
  · next h => simp [h]

/-- Loads the data register with a cell of a segment. -/
def load (segment : Segment) (index : Int) (file : String) : Except Fault (List Instruction) :=
  match segment with
  | .constant => .ok [number index, assign "D" "A"]
  | .based b => .ok [symbol b.cell, assign "D" "M", number index, assign "A" "D+A", assign "D" "M"]
  | .pointer => do return [number (← pointerCell index), assign "D" "M"]
  | .temp => do return [number (← tempCell index), assign "D" "M"]
  | .static => do return [symbol (← staticCell file index), assign "D" "M"]

def push (segment : Segment) (index : Int) (file : String) : Except Fault (List Instruction) := do
  return (← load segment index file) ++ pushD

/-- Takes the top of the stack into a cell of a segment. The address of a cell reached through a
base cell waits in `R13`, since the data register is needed for the word itself. -/
def pop (segment : Segment) (index : Int) (file : String) : Except Fault (List Instruction) :=
  match segment with
  | .constant => .error .popConstant
  | .based b =>
    .ok ([symbol b.cell, assign "D" "M", number index, assign "D" "D+A", symbol "R13", assign "M" "D"]
      ++ popD ++ [symbol "R13", assign "A" "M", assign "M" "D"])
  | .pointer => do return popD ++ [number (← pointerCell index), assign "M" "D"]
  | .temp => do return popD ++ [number (← tempCell index), assign "M" "D"]
  | .static => do return popD ++ [symbol (← staticCell file index), assign "M" "D"]

theorem push_static_eq_ok {index : Int} {file : String} {code : List Instruction} :
    push .static index file = .ok code ↔ Numeral.Fits index ∧
      code = [symbol (Naming.static file index), assign "D" "M"] ++ pushD := by
  simp only [push, load, staticCell]
  split
  · next h => simp [h, eq_comm, bind, Except.bind, pure, Except.pure]
  · next h => simp [h, bind, Except.bind]

theorem pop_static_eq_ok {index : Int} {file : String} {code : List Instruction} :
    pop .static index file = .ok code ↔ Numeral.Fits index ∧
      code = popD ++ [symbol (Naming.static file index), assign "M" "D"] := by
  simp only [pop, staticCell]
  split
  · next h => simp [h, eq_comm, bind, Except.bind, pure, Except.pure]
  · next h => simp [h, bind, Except.bind]

/-! ## Operators -/

def unary (u : Unary) : List Instruction :=
  [symbol "SP", assign "A" "M-1", assign "M" u.comp]

def binary (b : Binary) : List Instruction :=
  [symbol "SP", assign "AM" "M-1", assign "D" "M", assign "A" "A-1", assign "M" b.comp]

/-- Replaces the two topmost words by `-1` if they compare, and by `0` otherwise. -/
def compare (c : Comparison) (ordinal : Option Int) : List Instruction :=
  [symbol "SP", assign "AM" "M-1", assign "D" "M", assign "A" "A-1", assign "D" "M-D",
    symbol (Naming.whenTrue ordinal), jumpIf "D" c.condition,
    symbol "SP", assign "A" "M-1", assign "M" "0",
    symbol (Naming.whenDone ordinal), jump,
    label (Naming.whenTrue ordinal),
    symbol "SP", assign "A" "M-1", assign "M" "-1",
    label (Naming.whenDone ordinal)]

/-- The code of an operator. Only a comparison needs a number, for its labels. -/
def operate (o : Operator) (ordinal : Option Int) : Except Misuse (List Instruction) :=
  match o, ordinal with
  | .unary u, _ => .ok (unary u)
  | .binary b, _ => .ok (binary b)
  | .compare c, some n => .ok (compare c (some n))
  | .compare c, none => .error (.noOrdinal (.compare c))

end Block

end HackVm
