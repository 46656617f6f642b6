import HackVm.Machine.Symbols

/-!
# The Hack machine

A machine with 16-bit words, an address register `a`, a data register `d`, a memory and a program
that it cannot change. Jumps and tests take words as signed integers.

* `Program` : the instructions in program memory, and what their symbols stand for;
* `State` : the registers, the memory and the address of the next instruction;
* `step?` : the state after one instruction;
* `steps?` : the state after several.
-/

namespace HackVm.Machine

abbrev Word := BitVec 16

structure State where
  a : Word
  d : Word
  pc : Nat
  ram : Word → Word

namespace State

/-- The word that the address register points to. -/
def m (s : State) : Word := s.ram s.a

def poke (s : State) (cell value : Word) : State :=
  { s with ram := fun c => if c = cell then value else s.ram c }

end State

/-- What is computed from the address register, the data register and the word in memory. -/
def compute? (comp : String) (a d m : Word) : Option Word :=
  match comp with
  | "0" => some 0
  | "1" => some 1
  | "-1" => some (-1)
  | "D" => some d
  | "A" => some a
  | "M" => some m
  | "!D" => some (~~~d)
  | "!A" => some (~~~a)
  | "!M" => some (~~~m)
  | "-D" => some (-d)
  | "-A" => some (-a)
  | "-M" => some (-m)
  | "D+1" => some (d + 1)
  | "A+1" => some (a + 1)
  | "M+1" => some (m + 1)
  | "D-1" => some (d - 1)
  | "A-1" => some (a - 1)
  | "M-1" => some (m - 1)
  | "D+A" => some (d + a)
  | "D+M" => some (d + m)
  | "D-A" => some (d - a)
  | "D-M" => some (d - m)
  | "A-D" => some (a - d)
  | "M-D" => some (m - d)
  | "D&A" => some (d &&& a)
  | "D&M" => some (d &&& m)
  | "D|A" => some (d ||| a)
  | "D|M" => some (d ||| m)
  | _ => none

/-- Whether a jump is taken on a word; without a condition none is. -/
def taken? (jump : String) (w : Word) : Option Bool :=
  match jump with
  | "" => some false
  | "JGT" => some (0 < w.toInt)
  | "JEQ" => some (w = 0)
  | "JGE" => some (0 ≤ w.toInt)
  | "JLT" => some (w.toInt < 0)
  | "JNE" => some (w ≠ 0)
  | "JLE" => some (w.toInt ≤ 0)
  | "JMP" => some true
  | _ => none

/-- Stores a word in the registers and the memory cell that `dest` names. The cell is the one that
the address register points to before it changes. -/
def State.store (s : State) (dest : String) (w : Word) : State :=
  let s' := if 'M' ∈ dest.toList then s.poke s.a w else s
  { s' with
    a := if 'A' ∈ dest.toList then w else s'.a
    d := if 'D' ∈ dest.toList then w else s'.d }

structure Program where
  instructions : List Instruction
  value? : String → Option Nat

def Program.ofListing (code : List Instruction) : Program :=
  ⟨code.filter Instruction.isCode, symbolValue? code⟩

def Program.operand? (p : Program) : Operand → Option Word
  | .number n => some (BitVec.ofInt 16 n)
  | .symbol s =>
    if s ≠ "" ∧ s.toList.all Numeral.isDigit then
      some (BitVec.ofNat 16 (Nat.ofDigitChars 10 s.toList 0))
    else (p.value? s).map (BitVec.ofNat 16)

/-- The state after an instruction. A jump goes where the address register points before the
instruction changes it. -/
def execute? (p : Program) (i : Instruction) (s : State) : Option State :=
  match i with
  | .address o => (p.operand? o).map fun w => { s with a := w, pc := s.pc + 1 }
  | .compute comp dest jump => do
    let w ← compute? comp s.a s.d s.m
    let jumps ← taken? jump w
    return { s.store dest w with pc := if jumps then s.a.toNat else s.pc + 1 }
  | .label _ => none
  | .comment _ => none

/-- The state after the next instruction; none behind the end of the program. -/
def step? (p : Program) (s : State) : Option State := do
  let i ← p.instructions[s.pc]?
  execute? p i s

def steps? (p : Program) : Nat → State → Option State
  | 0, s => some s
  | n + 1, s => (step? p s).bind (steps? p n)

/-- Running in two goes is running once. -/
theorem steps?_add (p : Program) (m n : Nat) (s : State) :
    steps? p (m + n) s = (steps? p m s).bind (steps? p n) := by
  induction m generalizing s with
  | zero => simp [steps?]
  | succ m ih =>
    have h : m + 1 + n = m + n + 1 := by omega
    cases hs : step? p s <;> simp [h, steps?, hs, ih]

end HackVm.Machine
