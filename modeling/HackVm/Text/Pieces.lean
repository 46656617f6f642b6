import HackVm.Text.Lines
import HackVm.Text.Utf8

/-!
# Fetching a file in pieces

A file that is read in blocks of characters is fetched in pieces of bytes. Each piece is decoded by
itself, after the bytes of an unfinished character that were left over from the piece before, and
the position of bad bytes is counted from there.

* `Fetch` : how far a file has been fetched;
* `Fetch.size` : the size of the next piece;
* `origin` : where the bytes begin that are decoded together with a given byte;
* `reported` : an error with its position counted from there.
-/

namespace HackVm.Text

/-- How far a file has been fetched. -/
structure Fetch where
  /-- The characters that have not been decoded yet, as far as they are good. -/
  ahead : List Char
  /-- Where these characters begin in the file. -/
  start : Nat := 0
  /-- The number of bytes fetched. -/
  fetched : Nat := 0
  /-- The number of characters handed on. -/
  handed : Nat := 0
  /-- A carriage return is held back, because a newline may follow. -/
  held : Bool := false
  /-- The size of the last piece. -/
  lastBytes : Nat := 0
  /-- The number of characters that the last piece gave. -/
  lastChars : Nat := 0

def leastPiece : Nat := 8192

/-- Sizes from here on do not count, because they are beyond what an index can hold. -/
def sizeLimit : Nat := 9223372036854775296

/-- The size of the next piece when blocks of `n` characters are asked for: what the block lacks, at
as many bytes a character as the last piece had. -/
def Fetch.size (f : Fetch) (n : Nat) : Nat :=
  let lacking := n - f.handed % n
  let bytes :=
    if 0 < f.lastChars ∧ f.lastChars < f.lastBytes then f.lastBytes * lacking / f.lastChars else lacking
  if leastPiece ≤ bytes ∧ bytes < sizeLimit then bytes else leastPiece

theorem Fetch.leastPiece_le_size (f : Fetch) (n : Nat) : leastPiece ≤ f.size n := by
  unfold Fetch.size
  dsimp only
  generalize (if 0 < f.lastChars ∧ f.lastChars < f.lastBytes then _ else _) = bytes
  split <;> omega

/-- The characters of a text that end within its first `budget` bytes, last first and after `done`,
and the other ones. -/
def cutBytes (done : List Char) (budget : Nat) : List Char → List Char × List Char
  | [] => (done, [])
  | c :: cs =>
    if c.utf8Size ≤ budget then cutBytes (c :: done) (budget - c.utf8Size) cs else (done, c :: cs)

/-- Takes off a carriage return that comes last in a text, which is given last character first. -/
def holdBack : List Char → Bool × List Char
  | '\r' :: cs => (true, cs)
  | cs => (false, cs)

/-- The state when the file has been fetched up to the byte `upto`. -/
def Fetch.advance (f : Fetch) (upto : Nat) : Fetch :=
  let (taken, ahead) := cutBytes [] (upto - f.start) f.ahead
  let (held, text) := holdBack (if f.held then taken ++ ['\r'] else taken)
  let given := (unifyNewlines text.reverse).length
  { ahead, held
    start := taken.foldl (fun n c => n + c.utf8Size) f.start
    fetched := upto
    handed := f.handed + given
    lastBytes := upto - f.fetched
    lastChars := given }

/-- How far a file of `total` bytes has been fetched after the next piece. -/
def Fetch.reach (f : Fetch) (n total : Nat) : Nat :=
  if f.fetched + f.size n < total then f.fetched + f.size n else total

/-- Where the bytes begin that are decoded together with the byte at `place`, in a file of `total`
bytes that is read in blocks of `n` characters. -/
def origin (n total place : Nat) (f : Fetch) : Nat :=
  if f.fetched < total then
    if place < f.reach n total then f.start
    else origin n total place (f.advance (f.reach n total))
  else f.start
termination_by total - f.fetched
decreasing_by
  have : leastPiece ≤ f.size n := f.leastPiece_le_size n
  have : 0 < leastPiece := by decide
  simp only [Fetch.advance, Fetch.reach]
  split <;> omega

/-- Two bytes of three that could only be a surrogate. They are taken for an unfinished character
until the third byte is there. -/
def isHalfSurrogate (bytes : List UInt8) (e : Utf8.Error) : Bool :=
  e.lead == 0xed && match bytes[e.offset + 1]? with
    | some b => 0xa0 ≤ b && b ≤ 0xbf
    | none => false

/-- The byte that shows that bytes are bad. If they are cut off, that is only the end of the
file. -/
def badPlace (bytes : List UInt8) (e : Utf8.Error) : Nat :=
  match e.reason with
  | .start => e.offset
  | .continuation => if isHalfSurrogate bytes e then e.offset + 2 else e.offset + e.tails + 1
  | .ending => bytes.length

/-- An error with its position counted from the first byte that is decoded with it, in a file that
is read in blocks of `n` characters. -/
def reported (n : Nat) (bytes : List UInt8) (e : Utf8.Error) : Utf8.Error :=
  match Utf8.decode (bytes.take e.offset) with
  | .ok ahead =>
    { e with offset := e.offset - origin n bytes.length (badPlace bytes e) { ahead } }
  | .error _ => e

end HackVm.Text
