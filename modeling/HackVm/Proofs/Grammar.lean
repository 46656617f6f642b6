import HackVm.Line.Phrase

/-!
# The language of source lines

Which lines are blank, which are written as a phrase and what command a phrase stands for, said
without reading a line from left to right.

* `Ending` : blanks, then perhaps a comment up to the end of the line;
* `TokenKind.Spells`, `TokenKind.Stops` : the text of a token, and what may stand directly behind it;
* `Written` : a line made of tokens with blanks between them;
* `Spelled` : a line that is written as a phrase;
* `Denotes`, `Refused` : the command that a phrase stands for, and why it stands for none.
-/

namespace HackVm.Line

/-! ## Blanks and comments -/

def Blank (cs : List Char) : Prop := ∀ c ∈ cs, isBlank c = true

/-- Blanks and perhaps a comment, which holds no newline. -/
def Ending (cs : List Char) : Prop :=
  ∃ g, Blank g ∧ (cs = g ∨ ∃ t, cs = g ++ '/' :: '/' :: t ∧ '\n' ∉ t)

/-! ## Tokens -/

/-- A name starts with a character that is no digit. -/
def IsName (w : List Char) : Prop :=
  ∃ c cs, w = c :: cs ∧ isNameStart c = true ∧ ∀ d ∈ cs, isNameRest d = true

def keywords : List (List Char) :=
  ["push".toList, "pop".toList, "label".toList, "goto".toList, "function".toList, "call".toList,
    "return".toList]

namespace TokenKind

def Spells : TokenKind → List Char → Prop
  | .push, w => w = "push".toList
  | .pop, w => w = "pop".toList
  | .label, w => w = "label".toList
  | .goto, w => w = "goto".toList
  | .ifGoto, w => w = "if-goto".toList
  | .function, w => w = "function".toList
  | .call, w => w = "call".toList
  | .ret, w => w = "return".toList
  | .word, w => w ≠ [] ∧ ∀ c ∈ w, isLower c = true
  | .name, w => IsName w
  | .number, w => w ≠ [] ∧ ∀ c ∈ w, Numeral.isDigit c = true

/-- Whether a character directly behind a token would belong to it. -/
def goesOn : TokenKind → Char → Bool
  | .ifGoto, _ => false
  | .name, c => isNameRest c
  | .number, c => Numeral.isDigit c
  | _, c => isLower c

/-- No character of `rest` belongs to the token before it. -/
def Stops (k : TokenKind) (rest : List Char) : Prop := ∀ c, rest.head? = some c → k.goesOn c = false

end TokenKind

/-- The line is made of these tokens, with blanks before, between and behind them and perhaps a
comment at its end. No two tokens need blanks between them, but each goes as far as it can. -/
def Written : List (TokenKind × List Char) → List Char → Prop
  | [], cs => Ending cs
  | (k, w) :: ts, cs =>
    ∃ g rest, cs = g ++ w ++ rest ∧ Blank g ∧ k.Spells w ∧ k.Stops rest ∧ Written ts rest

end HackVm.Line

namespace HackVm.Phrase
open Line

/-! ## Phrases -/

def tokens : Phrase → List (TokenKind × List Char)
  | .push s ds => [(.push, "push".toList), (.word, s), (.number, ds)]
  | .pop s ds => [(.pop, "pop".toList), (.word, s), (.number, ds)]
  | .operate w => [(.word, w)]
  | .label n => [(.label, "label".toList), (.name, n)]
  | .goto n => [(.goto, "goto".toList), (.name, n)]
  | .ifGoto n => [(.ifGoto, "if-goto".toList), (.name, n)]
  | .function n ds => [(.function, "function".toList), (.name, n), (.number, ds)]
  | .call n ds => [(.call, "call".toList), (.name, n), (.number, ds)]
  | .ret => [(.ret, "return".toList)]

/-- The line is written as the phrase `p`. An operator is a word of its own. -/
def Spelled (p : Phrase) (line : List Char) : Prop :=
  Written p.tokens line ∧ ∀ w, p = .operate w → w ∉ keywords

def decimal (ds : List Char) : Int := (Nat.ofDigitChars 10 ds 0 : Nat)

inductive Denotes : Phrase → Command → Prop
  | push (s : Segment) {ds : List Char} (h : ds.length ≤ 4300) :
    Denotes (.push s.word.toList ds) (.push s (decimal ds))
  | pop {s : Segment} {ds : List Char} (hs : s ≠ .constant) (h : ds.length ≤ 4300) :
    Denotes (.pop s.word.toList ds) (.pop s (decimal ds))
  | operate (o : Operator) : Denotes (.operate o.word.toList) (.operate o)
  | label (n : List Char) : Denotes (.label n) (.label (String.ofList n))
  | goto (n : List Char) : Denotes (.goto n) (.goto (String.ofList n))
  | ifGoto (n : List Char) : Denotes (.ifGoto n) (.ifGoto (String.ofList n))
  | function (n : List Char) {ds : List Char} (h : ds.length ≤ 4300) :
    Denotes (.function n ds) (.function (String.ofList n) (decimal ds))
  | call (n : List Char) {ds : List Char} (h : ds.length ≤ 4300) :
    Denotes (.call n ds) (.call (String.ofList n) (decimal ds))
  | ret : Denotes .ret .ret

/-- Why a phrase stands for no command. A number is looked at last. -/
inductive Refused : Phrase → Cause → Prop
  | pushSegment {w : List Char} (ds : List Char) (h : ∀ s : Segment, s.word.toList ≠ w) :
    Refused (.push w ds) (.fault (.unknownSegment (String.ofList w)))
  | popSegment {w : List Char} (ds : List Char) (h : ∀ s : Segment, s.word.toList ≠ w) :
    Refused (.pop w ds) (.fault (.unknownSegment (String.ofList w)))
  | popConstant (ds : List Char) : Refused (.pop "constant".toList ds) (.fault .popConstant)
  | operator {w : List Char} (h : ∀ o : Operator, o.word.toList ≠ w) :
    Refused (.operate w) (.fault (.unknownOperator (String.ofList w)))
  | pushNumber (s : Segment) {ds : List Char} (h : 4300 < ds.length) :
    Refused (.push s.word.toList ds) (.overlong (.read ds.length))
  | popNumber {s : Segment} {ds : List Char} (hs : s ≠ .constant) (h : 4300 < ds.length) :
    Refused (.pop s.word.toList ds) (.overlong (.read ds.length))
  | functionNumber (n : List Char) {ds : List Char} (h : 4300 < ds.length) :
    Refused (.function n ds) (.overlong (.read ds.length))
  | callNumber (n : List Char) {ds : List Char} (h : 4300 < ds.length) :
    Refused (.call n ds) (.overlong (.read ds.length))

end HackVm.Phrase
