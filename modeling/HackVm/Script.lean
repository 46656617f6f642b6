import HackVm.Line.Phrase
import HackVm.Text.Lines

/-!
# Reading a whole text

Each line stands for itself, so a bad line does not hide the next one.

* `Complaint` : what is reported about a bad line;
* `Script.read` : all statements of a text, or else all complaints about it.
-/

namespace HackVm

/-- What is wrong with a line, and where. -/
structure Complaint where
  message : String
  line : Nat
  column : Nat
deriving DecidableEq, Repr

namespace Script

inductive Reading where
  /-- Every line is fine. -/
  | accepted (statements : List Statement)
  /-- Some lines are bad; there is a complaint for each of them, in order. -/
  | refused (complaints : List Complaint)
  /-- A number is too long to be read; the first such line ends the reading. -/
  | overlong (phrase : Phrase) (cause : Numeral.Overlong)
deriving DecidableEq, Repr

def ofMisreading (number : Nat) (m : Line.Misreading) : Complaint := ⟨m.message, number, m.column⟩

/-- The complaint about a line that can be read, but stands for no command. -/
def ofFault (number : Nat) (f : Fault) : Complaint := ⟨f.message, number, 1⟩

/-- Reads on from line `number`, with the statements and complaints so far, last first. -/
def readFrom (number : Nat) (statements : List Statement) (complaints : List Complaint) :
    List (List Char) → Reading
  | [] => if complaints.isEmpty then .accepted statements.reverse else .refused complaints.reverse
  | line :: lines => match Line.read line number with
    | .ok none => readFrom (number + 1) statements complaints lines
    | .ok (some s) => readFrom (number + 1) (s :: statements) complaints lines
    | .error (.misread m) =>
      readFrom (number + 1) statements (ofMisreading number m :: complaints) lines
    | .error (.rejected _ (.fault f)) =>
      readFrom (number + 1) statements (ofFault number f :: complaints) lines
    | .error (.rejected p (.overlong o)) => .overlong p o

def read (text : List Char) : Reading := readFrom 1 [] [] (Text.splitLines text)

end Script

end HackVm
