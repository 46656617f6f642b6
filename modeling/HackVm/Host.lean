import HackVm.Instruction
import HackVm.Command
import HackVm.Storage.Disk
import HackVm.Text.Blocks

/-!
# The host of a build

What a build comes to depends on the machine it runs on as well: how much memory there is, how deep
directories may be nested, and which texts can be put into bytes. Names and arguments need not be Unicode
text on every machine, so a host may refuse texts that hold such a name.
-/

namespace HackVm

structure Host where
  /-- There is memory to read a file of these bytes in blocks of this size. -/
  room : Int → List UInt8 → Bool
  /-- How many of these commands there is memory for, when their code is put behind a listing. -/
  capacity : Listing → List Command → Nat
  /-- There is memory for the text of a listing. -/
  holdsText : Listing → Bool
  /-- The most directories that are made for one path. -/
  nesting : Nat
  /-- Why a text cannot be encoded for a file, if so. -/
  unencodable? : String → Option String
  /-- Why a line cannot be shown, if so. -/
  unprintable? : String → Option String

namespace Host

def openText (host : Host) (bytes : List UInt8) : Text.Opened := Text.openText host.room bytes

/-- The bytes of a text, or why it has none. -/
def encode (host : Host) (text : String) : Except String (List UInt8) :=
  match host.unencodable? text with
  | some why => .error why
  | none => .ok (Utf8.encode text)

/-- A host with memory for all that is asked for, which encodes and shows every text. A path is shorter than
it may have directories. -/
def ample : Host where
  room _ _ := true
  capacity _ commands := commands.length
  holdsText _ := true
  nesting := Disk.pathLimit
  unencodable? _ := none
  unprintable? _ := none

end Host

end HackVm
