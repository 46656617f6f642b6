import HackVm.Text.Numeral

/-!
# Tokens of a source line

Which characters form a token depends on the place in the command where it stands: after `push` any
lower-case word is a segment word, also `label`, and after `label` any symbol is a name.

* `gapLength` : blanks and a comment before a token;
* `Place` : the places of a command;
* `Place.scan?` : the longest token that fits a place;
* `anyToken?` : the longest token that fits some place, which tells a misplaced token from a
  character that starts none.
-/

namespace HackVm.Line

/-! ## Characters -/

def isBlank (c : Char) : Bool := c == ' ' || c == '\t' || c == '\x0c' || c == '\r'

def isLower (c : Char) : Bool := 'a' ≤ c && c ≤ 'z'

def isNameStart (c : Char) : Bool :=
  isLower c || ('A' ≤ c && c ≤ 'Z') || c == '_' || c == '.' || c == '$' || c == ':'

def isNameRest (c : Char) : Bool := isNameStart c || Numeral.isDigit c

/-- The number of characters in front of the next token: blanks, then perhaps a comment, which ends
before a newline. -/
def gapLength : List Char → Nat
  | [] => 0
  | '/' :: '/' :: cs => 2 + (cs.takeWhile (· != '\n')).length
  | c :: cs => if isBlank c then gapLength cs + 1 else 0

/-- The length of the name at the head of a text; zero if there is none. -/
def nameLength : List Char → Nat
  | [] => 0
  | c :: cs => if isNameStart c then (cs.takeWhile isNameRest).length + 1 else 0

/-! ## Tokens -/

inductive TokenKind where
  | push
  | pop
  | label
  | goto
  | ifGoto
  | function
  | call
  | ret
  | word
  | name
  | number
deriving DecidableEq, Repr

def TokenKind.shown : TokenKind → String
  | .push => "PUSH"
  | .pop => "POP"
  | .label => "LABEL"
  | .goto => "GOTO"
  | .ifGoto => "_IF_GOTO"
  | .function => "FUNCTION"
  | .call => "CALL"
  | .ret => "RETURN"
  | .word => "WORD"
  | .name => "SYMBOL"
  | .number => "INT"

/-- The kind of a keyword. The command `if-goto` is not among them, since it is no word. -/
def keyword? (w : List Char) : Option TokenKind :=
  if w = "push".toList then some .push
  else if w = "pop".toList then some .pop
  else if w = "label".toList then some .label
  else if w = "goto".toList then some .goto
  else if w = "function".toList then some .function
  else if w = "call".toList then some .call
  else if w = "return".toList then some .ret
  else none

/-- A token and the column it starts in, from 1. -/
structure Token where
  kind : TokenKind
  text : List Char
  column : Nat
deriving DecidableEq, Repr

def Token.shown (t : Token) : String :=
  "Token('" ++ t.kind.shown ++ "', '" ++ String.ofList t.text ++ "')"

/-! ## Places -/

/-- The places of a command where a token may stand. -/
inductive Place where
  /-- Before anything else. -/
  | start
  /-- After `push` and `pop`. -/
  | segment
  /-- After `label`, `goto`, `if-goto`, `function` and `call`. -/
  | name
  /-- After a segment, and after the name of a function. -/
  | number
  /-- After a whole command. -/
  | finish
deriving DecidableEq, Repr

/-- The tokens that may stand at a place, as a message about a misplaced token lists them. -/
def Place.expected : Place → List String
  | .start => ["$END", "CALL", "FUNCTION", "GOTO", "LABEL", "POP", "PUSH", "RETURN", "WORD", "_IF_GOTO"]
  | .segment => ["WORD"]
  | .name => ["SYMBOL"]
  | .number => ["INT"]
  | .finish => ["$END"]

/-- The tokens that are looked for at a place, as a message about a stray character lists them.
Keywords are looked for as words. -/
def Place.sought : Place → List String
  | .start => ["WORD", "_IF_GOTO"]
  | .segment => ["WORD"]
  | .name => ["SYMBOL"]
  | .number => ["INT"]
  | .finish => ["<END-OF-FILE>"]

/-- The token made of the first `length` characters, if there are any. -/
def found? (kind : TokenKind) (length : Nat) : Option (TokenKind × Nat) :=
  if length = 0 then none else some (kind, length)

def ifGotoText : List Char := "if-goto".toList

/-- Kind and length of the token that a place admits at the head of a text. -/
def Place.scan? (p : Place) (cs : List Char) : Option (TokenKind × Nat) :=
  match p with
  | .start =>
    if ifGotoText.isPrefixOf cs then some (.ifGoto, ifGotoText.length)
    else
      let w := cs.takeWhile isLower
      found? ((keyword? w).getD .word) w.length
  | .segment => found? .word (cs.takeWhile isLower).length
  | .name => found? .name (nameLength cs)
  | .number => found? .number (cs.takeWhile Numeral.isDigit).length
  | .finish => none

/-- Kind and length of the token at the head of a text, whatever place it belongs to. -/
def anyToken? (cs : List Char) : Option (TokenKind × Nat) :=
  if ifGotoText.isPrefixOf cs then some (.ifGoto, ifGotoText.length)
  else
    let n := nameLength cs
    (found? ((keyword? (cs.take n)).getD .name) n).or
      (found? .number (cs.takeWhile Numeral.isDigit).length)

end HackVm.Line
