import HackVm.Text.Numeral

/-!
# Assembly instructions and listings

* `Instruction` : one line of Hack assembly, with `Instruction.text` as its written form;
* `codeSize` and `labelNames` : how many words of program memory a fragment takes, and the labels
  it defines;
* `Listing` : the instructions emitted so far, in order;
* `Listing.render` : the text of a listing, unless it holds an integer too long to be written.
-/

namespace HackVm

/-- What an address instruction loads. -/
inductive Operand where
  | number (n : Int)
  | symbol (name : String)
deriving DecidableEq, Repr

/-- One line of assembly. -/
inductive Instruction where
  /-- Loads the address register. -/
  | address (operand : Operand)
  /-- Computes `comp`, stores it in `dest` and jumps on the condition `jump`; the last two may be
  empty. -/
  | compute (comp dest jump : String)
  /-- Names the address of the next instruction. -/
  | label (name : String)
  | comment (text : String)
deriving DecidableEq, Repr

namespace Instruction

def number (n : Int) : Instruction := .address (.number n)

def symbol (name : String) : Instruction := .address (.symbol name)

def assign (dest comp : String) : Instruction := .compute comp dest ""

def jumpIf (comp condition : String) : Instruction := .compute comp "" condition

def jump : Instruction := jumpIf "0" "JMP"

/-- Labels and comments take no program memory. -/
def isCode : Instruction → Bool
  | .address _ => true
  | .compute .. => true
  | .label _ => false
  | .comment _ => false

def defines : Instruction → Option String
  | .label n => some n
  | _ => none

def text : Instruction → String
  | .address (.number n) => "@" ++ Numeral.text n
  | .address (.symbol s) => "@" ++ s
  | .compute comp dest jump =>
    (if dest = "" then "" else dest ++ "=") ++ comp ++ (if jump = "" then "" else ";" ++ jump)
  | .label n => "(" ++ n ++ ")"
  | .comment t => "// " ++ t

/-- The instruction holds no integer beyond the numeral limit. -/
def Writable : Instruction → Prop
  | .address (.number n) => Numeral.Fits n
  | _ => True

instance : DecidablePred Writable
  | .address (.number n) => inferInstanceAs (Decidable (Numeral.Fits n))
  | .address (.symbol _) => .isTrue trivial
  | .compute .. => .isTrue trivial
  | .label _ => .isTrue trivial
  | .comment _ => .isTrue trivial

def render (i : Instruction) : Except Numeral.Overlong String :=
  if i.Writable then .ok i.text else .error .written

end Instruction

/-- How many words of program memory a fragment takes. -/
def codeSize (code : List Instruction) : Nat := code.countP Instruction.isCode

def labelNames (code : List Instruction) : List String := code.filterMap Instruction.defines

@[simp] theorem codeSize_append (code more : List Instruction) :
    codeSize (code ++ more) = codeSize code + codeSize more := by
  simp [codeSize]

@[simp] theorem labelNames_append (code more : List Instruction) :
    labelNames (code ++ more) = labelNames code ++ labelNames more := by
  simp [labelNames]

/-! ## Listings -/

/-- A sequence of instructions that grows at its end. -/
structure Listing where
  instructions : Array Instruction := #[]
deriving DecidableEq, Repr

namespace Listing

def toList (l : Listing) : List Instruction := l.instructions.toList

def size (l : Listing) : Nat := l.instructions.size

def append (l : Listing) (code : List Instruction) : Listing := ⟨l.instructions.appendList code⟩

def codeSize (l : Listing) : Nat := HackVm.codeSize l.toList

/-- The lines of the listing, each but the last followed by a newline, and one more newline at the
end, so that an empty listing is one empty line. -/
def text (l : Listing) : String := "\n".intercalate (l.toList.map Instruction.text) ++ "\n"

/-- The text of the listing, if every integer in it can be written. -/
def render (l : Listing) : Except Numeral.Overlong String :=
  if l.toList.all (fun i => i.Writable) then .ok l.text else .error .written

@[simp] theorem toList_append (l : Listing) (code : List Instruction) :
    (l.append code).toList = l.toList ++ code := by
  simp [toList, append]

end Listing

end HackVm
