import HackVm.Emitter
import HackVm.Machine.Step
import Mathlib.Data.BitVec
import Mathlib.Logic.Function.Iterate
import Mathlib.Tactic.Ring

/-!
# The stack machine

What a command does to memory, apart from the code that is generated for it. The stack grows
upwards; the cell `sp` holds the address after its top, and the cells `lcl`, `arg`, `this` and
`that` hold where the segments `local`, `argument`, `this` and `that` start.

* `Layout` : the addresses of labels and the cells of variables;
* `Site` : where a command stands, and the address of the command behind it;
* `step?` : the configuration after a command; it has none if a label or a variable is missing, or
  if the segment has no such cell;
* `touched` : the values of the stack pointer before and after a command, and every cell of the
  stack, of the frame and of the segments `local`, `argument`, `this` and `that` that it reads or
  writes;
* `scratch` : the cells that the code of a command uses for itself.
-/

namespace HackVm

open Machine (Word)

/-! ## Cells with names -/

namespace Cell

def sp : Word := 0#16

def lcl : Word := 1#16

def arg : Word := 2#16

def this : Word := 3#16

def that : Word := 4#16

def r13 : Word := 13#16

def r14 : Word := 14#16

end Cell

open Cell (sp lcl arg r13 r14)

def Base.register : Base → Word
  | .lcl => Cell.lcl
  | .arg => Cell.arg
  | .this => Cell.this
  | .that => Cell.that

/-! ## Operators -/

def Unary.apply : Unary → Word → Word
  | .neg, y => -y
  | .not, y => ~~~y

def Binary.apply : Binary → Word → Word → Word
  | .add, x, y => x + y
  | .sub, x, y => x - y
  | .and, x, y => x &&& y
  | .or, x, y => x ||| y

/-- Whether two words compare: whether they are equal, and else by the sign of their difference,
which is a word itself. -/
def Comparison.holds : Comparison → Word → Word → Bool
  | .eq, x, y => x = y
  | .gt, x, y => 0 < (x - y).toInt
  | .lt, x, y => (x - y).toInt < 0

def Comparison.apply (c : Comparison) (x y : Word) : Word := if c.holds x y then -1#16 else 0#16

namespace StackMachine

abbrev Memory := Word → Word

/-! ## The stack -/

def pushed (m : Memory) (w : Word) : Memory :=
  Function.update (Function.update m (m sp) w) sp (m sp + 1#16)

/-- The memory with a word taken from the stack. The word itself stays in its cell. -/
def popped (m : Memory) : Memory := Function.update m sp (m sp - 1#16)

def top (m : Memory) : Word := m (m sp - 1#16)

def second (m : Memory) : Word := m (m sp - 2#16)

theorem pushed_sp (m : Memory) (w : Word) : pushed m w sp = m sp + 1#16 := Function.update_self ..

theorem pushed_sp_add (m : Memory) (w : Word) (j : Nat) :
    pushed m w sp + BitVec.ofNat 16 j = m sp + BitVec.ofNat 16 (j + 1) := by
  rw [pushed_sp, BitVec.ofNat_add]
  ring

theorem foldl_pushed_sp (ws : List Word) (m : Memory) :
    ws.foldl pushed m sp = m sp + BitVec.ofNat 16 ws.length := by
  induction ws generalizing m with
  | nil => simp
  | cons w ws ih => rw [List.foldl_cons, ih, pushed_sp_add, List.length_cons]

theorem pushed_other {m : Memory} {c : Word} (w : Word) (hc : c ≠ sp) (ht : m sp ≠ c) :
    pushed m w c = m c := by
  rw [pushed, Function.update_of_ne hc, Function.update_of_ne ht.symm]

theorem top_update {m : Memory} {c w : Word} (hc : c ≠ sp) (ht : m sp - 1#16 ≠ c) :
    top (Function.update m c w) = top m := by
  unfold top
  rw [Function.update_of_ne hc.symm, Function.update_of_ne ht]

/-! ## Commands -/

structure Layout where
  labelAt? : String → Option Nat
  variableAt? : String → Option Word

/-- The labels of a listing have addresses of program memory, and its variables have cells of their
own, from `firstVariable` on. -/
def Layout.ofListing (code : List Instruction) : Layout where
  labelAt? name := Machine.labelAddress? name code
  variableAt? name := ((Machine.variableNames code).idxOf? name).map fun k =>
    BitVec.ofNat 16 (Machine.firstVariable + k)

structure Site where
  file : String
  /-- The enclosing function, if any. -/
  function : Option String
  /-- The address of the command behind it. -/
  next : Nat

/-- The address of the next command, and the memory. -/
structure Config where
  pc : Nat
  memory : Memory

def cell? (l : Layout) (x : Site) (m : Memory) : Segment → Int → Option Word
  | .constant, _ => none
  | .based b, i => some (m b.register + BitVec.ofInt 16 i)
  | .pointer, i => if 0 ≤ i ∧ i ≤ 1 then some (BitVec.ofInt 16 (3 + i)) else none
  | .temp, i => if 0 ≤ i ∧ i ≤ 7 then some (BitVec.ofInt 16 (5 + i)) else none
  | .static, i => l.variableAt? (Naming.static x.file i)

def word? (l : Layout) (x : Site) (m : Memory) : Segment → Int → Option Word
  | .constant, i => some (BitVec.ofInt 16 i)
  | s, i => (cell? l x m s i).map m

/-- The memory with a frame on the stack: the return address and where the segments start. `argument`
now starts below it, at the first of `arguments` words, and `local` above it. -/
def framed (m : Memory) (next : Nat) (arguments : Int) : Memory :=
  let m' := [BitVec.ofNat 16 next, m lcl, m arg, m Cell.this, m Cell.that].foldl pushed m
  Function.update (Function.update m' arg (m sp - BitVec.ofInt 16 arguments)) lcl (m' sp)

/-- The memory with the topmost word in place of the arguments, and the segments starting where the
frame below `local` says. -/
def unframed (m : Memory) : Memory :=
  let m' := Function.update (Function.update m (m arg) (top m)) sp (m arg + 1#16)
  Function.update (Function.update (Function.update (Function.update m'
    Cell.that (m' (m lcl - 1#16))) Cell.this (m' (m lcl - 2#16))) arg (m' (m lcl - 3#16)))
    lcl (m' (m lcl - 4#16))

def step? (l : Layout) (x : Site) (m : Memory) : Command → Option Config
  | .push s i => (word? l x m s i).map fun w => ⟨x.next, pushed m w⟩
  | .pop s i => (cell? l x m s i).map fun c => ⟨x.next, Function.update (popped m) c (top m)⟩
  | .operate (.unary u) => some ⟨x.next, Function.update m (m sp - 1#16) (u.apply (top m))⟩
  | .operate (.binary b) =>
    some ⟨x.next, Function.update (popped m) (m sp - 2#16) (b.apply (second m) (top m))⟩
  | .operate (.compare c) =>
    some ⟨x.next, Function.update (popped m) (m sp - 2#16) (c.apply (second m) (top m))⟩
  | .label _ => some ⟨x.next, m⟩
  | .goto n => (l.labelAt? (Naming.label x.file x.function n)).map fun t => ⟨t, m⟩
  | .ifGoto n => (l.labelAt? (Naming.label x.file x.function n)).map fun t =>
    ⟨if top m = 0#16 then x.next else t, popped m⟩
  | .function _ k => some ⟨x.next, (pushed · 0#16)^[k.toNat] m⟩
  | .call n k => (l.labelAt? n).map fun t => ⟨t, framed m x.next k⟩
  | .ret => some ⟨(m (m lcl - 5#16)).toNat, unframed m⟩

def target? (x : Site) : Command → Option String
  | .goto n => some (Naming.label x.file x.function n)
  | .ifGoto n => some (Naming.label x.file x.function n)
  | .call n _ => some n
  | _ => none

/-! ## The cells that a command touches -/

/-- The cell of a segment that starts where a base cell points. -/
def basedCell (m : Memory) : Segment → Int → List Word
  | .based b, i => [m b.register + BitVec.ofInt 16 i]
  | _, _ => []

/-- The values of the stack pointer while `k` words are put on the stack. -/
def rising (m : Memory) (k : Nat) : List Word :=
  (List.range (k + 1)).map fun j => m sp + BitVec.ofNat 16 j

theorem mem_rising {m : Memory} {j k : Nat} (h : j ≤ k) :
    m sp + BitVec.ofNat 16 j ∈ rising m k :=
  List.mem_map.2 ⟨j, List.mem_range.2 (Nat.lt_succ_of_le h), rfl⟩

/-- The stack pointer before and after a command, and the cells of the stack, of the frame and of
segments that start where a base cell points. -/
def touched (m : Memory) : Command → List Word
  | .push s i => [m sp, m sp + 1#16] ++ basedCell m s i
  | .pop s i => [m sp, m sp - 1#16] ++ basedCell m s i
  | .operate (.unary _) => [m sp, m sp - 1#16]
  | .operate _ => [m sp, m sp - 1#16, m sp - 2#16]
  | .label _ => [m sp]
  | .goto _ => [m sp]
  | .ifGoto _ => [m sp, m sp - 1#16]
  | .function _ k => rising m k.toNat
  | .call _ _ => rising m 5
  | .ret => [m sp, m sp - 1#16, m arg, m arg + 1#16, m lcl - 1#16, m lcl - 2#16, m lcl - 3#16,
    m lcl - 4#16, m lcl - 5#16]

def AboveRegisters (w : Word) : Prop := 16 ≤ w.toNat

instance (w : Word) : Decidable (AboveRegisters w) := inferInstanceAs (Decidable (_ ≤ _))

theorem AboveRegisters.ne {w c : Word} (h : AboveRegisters w) (hc : c.toNat < 16) : w ≠ c := by
  rintro rfl
  exact absurd h (Nat.not_le.2 hc)

/-- The cells that the code of a command uses for itself: `R13`, and `R14` when it returns. -/
def scratch : Command → List Word
  | .pop (.based _) _ => [r13]
  | .ret => [r13, r14]
  | _ => []

end StackMachine

end HackVm
