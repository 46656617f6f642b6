import HackVm.Instruction

/-!
# What symbols stand for

The assembler turns every symbol of a listing into a number: a predefined symbol into the cell it
names, a label into an address of program memory, and every other symbol into a memory cell of its
own.

* `predefined?` : the cells that have names;
* `labelAddress?` : the number of words of program memory before a label;
* `variableNames` : the symbols that are given cells, in the order in which they get them;
* `symbolValue?` : what a symbol stands for in a listing.
-/

namespace HackVm.Machine

def registers : List (String × Nat) := (List.range 16).map fun n => ("R" ++ toString n, n)

def predefined : List (String × Nat) :=
  [("SP", 0), ("LCL", 1), ("ARG", 2), ("THIS", 3), ("THAT", 4), ("SCREEN", 16384), ("KBD", 24576)]
    ++ registers

def predefined? (name : String) : Option Nat := predefined.lookup name

/-- The address of a label: the words of program memory before it. -/
def labelAddress? (name : String) : List Instruction → Option Nat
  | [] => none
  | i :: code =>
    if i = .label name then some 0
    else (labelAddress? name code).map (· + if i.isCode then 1 else 0)

/-- The symbol that an instruction loads. A symbol of digits only is a number. -/
def loads? : Instruction → Option String
  | .address (.symbol s) => if s ≠ "" ∧ s.toList.all Numeral.isDigit then none else some s
  | _ => none

def isVariable (code : List Instruction) (name : String) : Bool :=
  (predefined? name).isNone && name ∉ labelNames code

/-- The variables of a listing, in the order in which they first appear. -/
def variableNames (code : List Instruction) : List String :=
  ((code.filterMap loads?).filter (isVariable code)).eraseDups

def firstVariable : Nat := 16

def symbolValue? (code : List Instruction) (name : String) : Option Nat :=
  (predefined? name).or <| (labelAddress? name code).or <|
    ((variableNames code).idxOf? name).map (firstVariable + ·)

/-- The assembler accepts a listing if its labels are distinct and none is predefined. -/
def Accepted (code : List Instruction) : Prop :=
  (labelNames code).Nodup ∧ ∀ name ∈ labelNames code, predefined? name = none

instance (code : List Instruction) : Decidable (Accepted code) :=
  inferInstanceAs (Decidable (_ ∧ _))

/-! ## Addresses of labels -/

/-- Every defined label has an address. -/
theorem labelAddress?_isSome {name : String} {code : List Instruction} (h : name ∈ labelNames code) :
    (labelAddress? name code).isSome := by
  induction code with
  | nil => simp [labelNames] at h
  | cons i code ih =>
    rw [labelAddress?]
    by_cases hi : i = .label name
    · simp [hi]
    · have : name ∈ labelNames code := by
        cases i <;> simp_all [labelNames, Instruction.defines]
        grind
      simp [hi, ih this]

/-- A label that is not defined before stands where its definition is. -/
theorem labelAddress?_append {name : String} {before after : List Instruction}
    (h : name ∉ labelNames before) :
    labelAddress? name (before ++ .label name :: after) = some (codeSize before) := by
  induction before with
  | nil => simp [labelAddress?, codeSize]
  | cons i before ih =>
    have hi : i ≠ .label name := by
      rintro rfl
      simp [labelNames, Instruction.defines] at h
    have hb : name ∉ labelNames before := by
      intro hmem
      apply h
      simp only [labelNames, List.filterMap_cons] at hmem ⊢
      split <;> simp_all
    simp [labelAddress?, hi, ih hb, codeSize, List.countP_cons]

end HackVm.Machine
