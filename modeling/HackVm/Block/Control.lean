import HackVm.Block.Stack

/-!
# Code that moves control

A call builds a frame on the stack, above the arguments:

    ARG ->  argument 0
            ...
            return address
            saved LCL
            saved ARG
            saved THIS
            saved THAT
    LCL ->  local 0
            ...

* `label`, `goto`, `ifGoto` : labels of one function and the jumps to them;
* `function`, `call`, `ret` : entering, building and leaving a frame;
* `bootstrap` : sets the stack pointer and calls the entry function.
-/

namespace HackVm.Block
open Instruction

/-! ## Branches -/

def label (file : String) (function : Option String) (name : String) : List Instruction :=
  [.label (Naming.label file function name)]

def goto (file : String) (function : Option String) (name : String) : List Instruction :=
  [symbol (Naming.label file function name), jump]

/-- Takes a word from the stack and goes to a label unless it is zero. -/
def ifGoto (file : String) (function : Option String) (name : String) : List Instruction :=
  popD ++ [symbol (Naming.label file function name), jumpIf "D" "JNE"]

/-! ## Frames -/

/-- The words that a call puts between the arguments and the locals. -/
def frameSize : Nat := 5

/-- The cells that a call saves, in this order. -/
def savedCells : List String := ["LCL", "ARG", "THIS", "THAT"]

def pushZero : List Instruction :=
  [symbol "SP", assign "A" "M", assign "M" "0", symbol "SP", assign "M" "M+1"]

/-- The entry of a function: its label, and a zero for each local. A negative number of locals
counts as none. -/
def function (name : String) (locals : Int) : List Instruction :=
  .label name :: (List.replicate locals.toNat pushZero).flatten

def save (cell : String) : List Instruction :=
  [symbol cell, assign "D" "M"] ++ pushD

/-- Calls a function whose arguments are on the stack: builds the frame, sets `ARG` to the first
argument and `LCL` to the first local, and jumps. -/
def call (name : String) (arguments : Int) (ordinal : Option Int) : List Instruction :=
  [symbol (Naming.returnTo name ordinal), assign "D" "A"] ++ pushD
    ++ savedCells.flatMap save
    ++ [symbol "SP", assign "D" "M", number (frameSize + arguments), assign "D" "D-A", symbol "ARG",
      assign "M" "D"]
    ++ [symbol "SP", assign "D" "M", symbol "LCL", assign "M" "D"]
    ++ [symbol name, jump, .label (Naming.returnTo name ordinal)]

/-- Restores a saved cell from below `R13`, which moves down. -/
def restore (cell : String) : List Instruction :=
  [symbol "R13", assign "AM" "M-1", assign "D" "M", symbol cell, assign "M" "D"]

/-- Returns to the caller. `R13` walks down the frame and `R14` keeps the return address, which is
read before the result is stored, because without arguments `ARG` points at it. -/
def ret : List Instruction :=
  [symbol "LCL", assign "D" "M", symbol "R13", assign "M" "D"]
    ++ [number frameSize, assign "A" "D-A", assign "D" "M", symbol "R14", assign "M" "D"]
    ++ popD ++ [symbol "ARG", assign "A" "M", assign "M" "D"]
    ++ [symbol "ARG", assign "D" "M+1", symbol "SP", assign "M" "D"]
    ++ savedCells.reverse.flatMap restore
    ++ [symbol "R14", assign "A" "M", jump]

/-- Starts the stack at `stackBase` and calls the entry function. -/
def bootstrap (stackBase : Operand) (entry : String) (ordinal : Option Int) : List Instruction :=
  [.address stackBase, assign "D" "A", symbol "SP", assign "M" "D"] ++ call entry 0 ordinal

end HackVm.Block
