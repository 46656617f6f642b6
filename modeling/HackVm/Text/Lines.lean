/-!
# Lines of a text

* `isBreak` : the characters that end a line;
* `splitLines` : the lines of a text, without what ends them;
* `unifyNewlines` : every `\r\n` and every other `\r` becomes `\n`.
-/

namespace HackVm.Text

/-- Line feed, carriage return, the vertical controls, the separators `\x1c` to `\x1e`, next line,
and the two Unicode separators end a line. -/
def isBreak (c : Char) : Bool :=
  c == '\n' || c == '\r' || c == '\x0b' || c == '\x0c' || c == '\x1c' || c == '\x1d' || c == '\x1e'
    || c == '\x85' || c == '\u2028' || c == '\u2029'

/-- The lines of `line.reverse ++ text`, where `line` holds no break. -/
def splitLinesFrom (line : List Char) : List Char → List (List Char)
  | [] => if line.isEmpty then [] else [line.reverse]
  | '\r' :: '\n' :: cs => line.reverse :: splitLinesFrom [] cs
  | c :: cs => if isBreak c then line.reverse :: splitLinesFrom [] cs else splitLinesFrom (c :: line) cs

/-- The lines of a text. `\r\n` is one break, and a break at the very end starts no further line. -/
def splitLines (text : List Char) : List (List Char) := splitLinesFrom [] text

/-- The text `done.reverse` followed by `text` with unified newlines. -/
def unifyNewlinesFrom (done : List Char) : List Char → List Char
  | [] => done.reverse
  | '\r' :: '\n' :: cs => unifyNewlinesFrom ('\n' :: done) cs
  | c :: cs => unifyNewlinesFrom ((if c = '\r' then '\n' else c) :: done) cs

/-- The text with `\r\n` and `\r` written as `\n`. -/
def unifyNewlines (text : List Char) : List Char := unifyNewlinesFrom [] text

end HackVm.Text
