import HackVm.Text.Numeral
import HackVm.Text.Printable

/-!
# Quoted text

`quote` writes a text between quotation marks on one line: single marks, or double ones if the text
holds a single mark and no double one. A backslash stands before a backslash and before the mark,
`\n`, `\r` and `\t` have short forms, and other characters that are not printable are given by
their code points.

`Literal` adds the other plain values that are shown this way.
-/

namespace HackVm.Text

def escapeCode (n : Nat) : String :=
  if n < 0x100 then "\\x" ++ Numeral.hex 2 n
  else if n < 0x10000 then "\\u" ++ Numeral.hex 4 n
  else "\\U" ++ Numeral.hex 8 n

def escape (mark c : Char) : String :=
  if c = '\\' ∨ c = mark then "\\" ++ c.toString
  else if c = '\n' then "\\n"
  else if c = '\r' then "\\r"
  else if c = '\t' then "\\t"
  else if isPrintable c then c.toString
  else escapeCode c.toNat

def quotationMark (cs : List Char) : Char :=
  if cs.contains '\'' && !cs.contains '"' then '"' else '\''

def quote (s : String) : String :=
  let mark := quotationMark s.toList
  mark.toString ++ String.join (s.toList.map (escape mark)) ++ mark.toString

inductive Literal where
  /-- No value. -/
  | none
  /-- A truth value. -/
  | truth (b : Bool)
  | integer (n : Int)
  | text (s : String)
  | list (vs : List Literal)
  /-- Values by name. -/
  | record (fields : List (String × Literal))

def Literal.shown : Literal → String
  | .none => "None"
  | .truth b => if b then "True" else "False"
  | .integer n => Numeral.text n
  | .text s => quote s
  | .list vs => "[" ++ ", ".intercalate (vs.map Literal.shown) ++ "]"
  | .record fs =>
    "\x7b" ++ ", ".intercalate (fs.attach.map fun f => quote f.1.1 ++ ": " ++ f.1.2.shown) ++ "\x7d"
termination_by v => sizeOf v
decreasing_by
  · simp only [list.sizeOf_spec]
    have := List.sizeOf_lt_of_mem ‹_ ∈ vs›
    omega
  · have := List.sizeOf_lt_of_mem f.2
    have : sizeOf f.1 = 1 + sizeOf f.1.1 + sizeOf f.1.2 := rfl
    simp only [record.sizeOf_spec]
    omega

end HackVm.Text
