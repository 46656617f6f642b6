import HackVm.Text.Numeral

/-!
# Names of assembly symbols

The assembler knows one flat set of symbols. Each kind of name a program needs is spelled in its
own way, built from the file, the function and a number. Only a number within the limit of numerals can
be put into a name: `Block.staticCell` and `Emitter.emitCode` refuse the others.
-/

namespace HackVm.Naming

/-- The symbol of variable `index` of a file. The assembler gives each symbol a cell of its own, so
files do not share variables. -/
def static (file : String) (index : Int) : String := file ++ "." ++ Numeral.text index

/-- The label `name` as seen by the assembler: local to the enclosing function, or to the file
outside of functions. -/
def label (file : String) (function : Option String) (name : String) : String :=
  let scope := match function with
    | some f => if f = "" then file else f
    | none => file
  scope ++ "$" ++ name

/-- The number of a block that defines labels. A block that stands alone may go without one. -/
def ordinalText : Option Int → String
  | some n => Numeral.text n
  | none => "None"

def returnTo (function : String) (ordinal : Option Int) : String :=
  function ++ "$ret." ++ ordinalText ordinal

/-- The branch of comparison number `ordinal` that is taken when it holds. -/
def whenTrue (ordinal : Option Int) : String := "CMP$TRUE$" ++ ordinalText ordinal

def whenDone (ordinal : Option Int) : String := "CMP$END$" ++ ordinalText ordinal

end HackVm.Naming
