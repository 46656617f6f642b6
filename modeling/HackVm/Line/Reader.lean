import HackVm.Line.Token

/-!
# Reading a line token by token

* `Cursor` : a position in a line, as the characters before it and those after it;
* `Cursor.next?` : the next token at a place;
* `Misreading` : the first place where a line goes wrong, with its column and its message.
-/

namespace HackVm.Line

/-- A position in a line. -/
structure Cursor where
  /-- The characters before the position, the nearest one first. -/
  passed : List Char
  /-- The characters from the position on. -/
  rest : List Char
deriving DecidableEq, Repr

namespace Cursor

def ofLine (line : List Char) : Cursor := ⟨[], line⟩

def line (c : Cursor) : List Char := c.passed.reverse ++ c.rest

/-- The column of the position, from 1. -/
def column (c : Cursor) : Nat := c.passed.length + 1

def advance (c : Cursor) (n : Nat) : Cursor := ⟨(c.rest.take n).reverse ++ c.passed, c.rest.drop n⟩

def skipGap (c : Cursor) : Cursor := c.advance (gapLength c.rest)

@[simp] theorem line_advance (c : Cursor) (n : Nat) : (c.advance n).line = c.line := by
  simp [line, advance]

@[simp] theorem line_skipGap (c : Cursor) : c.skipGap.line = c.line := line_advance ..

def token (c : Cursor) (kind : TokenKind) (length : Nat) : Token :=
  ⟨kind, c.rest.take length, c.column⟩

end Cursor

/-- Where and why a line cannot be read. Each cause keeps the place that was to be filled. -/
inductive Misreading where
  /-- A token that does not fit the place; `last` is the token before it. -/
  | token (found : Token) (place : Place) (last : Option Token)
  /-- The line ends after the token `last`. -/
  | ending (place : Place) (last : Token)
  /-- A character that starts no token. -/
  | character (cursor : Cursor) (place : Place) (last : Option Token)
deriving DecidableEq, Repr

/-- The next token, which has to fit the place, and the position behind it; nothing at the end of
the line. -/
def Cursor.next? (c : Cursor) (place : Place) (last : Option Token) :
    Except Misreading (Option (Token × Cursor)) :=
  let c := c.skipGap
  if c.rest.isEmpty then .ok none
  else match place.scan? c.rest with
    | some (kind, n) => .ok (some (c.token kind n, c.advance n))
    | none => match anyToken? c.rest with
      | some (kind, n) => .error (.token (c.token kind n) place last)
      | none => .error (.character c place last)

/-- The next token, after the token `last`; the line must not end here. -/
def Cursor.next (c : Cursor) (place : Place) (last : Token) : Except Misreading (Token × Cursor) :=
  match c.next? place (some last) with
  | .ok (some r) => .ok r
  | .ok none => .error (.ending place last)
  | .error e => .error e

/-- Nothing but a gap follows the token `last`. -/
def Cursor.finish (c : Cursor) (last : Token) : Except Misreading Unit :=
  match c.next? .finish (some last) with
  | .ok _ => .ok ()
  | .error e => .error e

/-! ## Messages -/

/-- The width of a text on the screen: a tab goes to the next multiple of eight, and a carriage
return starts counting anew, although it takes a cell itself. -/
def screenWidth (cs : List Char) : Nat :=
  go 0 0 cs
where
  /-- Goes on in column `column` with `width` cells taken. -/
  go (column width : Nat) : List Char → Nat
    | [] => width
    | '\t' :: cs => go (column + (8 - column % 8)) (width + (8 - column % 8)) cs
    | c :: cs => go (if c = '\n' ∨ c = '\r' then 0 else column + 1) (width + 1) cs

/-- How many characters of context are shown on each side. -/
def contextSpan : Nat := 40

/-- The surroundings of a position on one line, and below them a caret under the position. -/
def Cursor.context (c : Cursor) : String :=
  let before := ((c.passed.take contextSpan).takeWhile (· != '\n')).reverse
  let after := (c.rest.take contextSpan).takeWhile (· != '\n')
  String.ofList (before ++ after) ++ "\n"
    ++ String.ofList (List.replicate (screenWidth before) ' ') ++ "^\n"

def expectedList (names : List String) : String :=
  "Expected one of: \n\t* " ++ "\n\t* ".intercalate names ++ "\n"

namespace Misreading

/-- The column in which the line goes wrong. When it ends too early that is the column of its last
token. -/
def column : Misreading → Nat
  | .token found _ _ => found.column
  | .ending _ last => last.column
  | .character c _ _ => c.column

def message : Misreading → String
  | .token found place last =>
    "Unexpected token " ++ found.shown ++ " at line 1, column " ++ toString found.column ++ ".\n"
      ++ expectedList place.expected
      ++ "Previous tokens: [" ++ (match last with | some t => t.shown | none => "None") ++ "]\n"
  | .ending place last =>
    "Unexpected token Token('$END', '') at line 1, column " ++ toString last.column ++ ".\n"
      ++ expectedList place.expected
  | .character c place last =>
    "No terminal matches '" ++ String.ofList (c.rest.take 1)
      ++ "' in the current parser context, at line 1 col " ++ toString c.column ++ "\n\n"
      ++ c.context ++ expectedList place.sought
      ++ (match last with | some t => "\nPrevious tokens: " ++ t.shown ++ "\n" | none => "")

end Misreading

end HackVm.Line
