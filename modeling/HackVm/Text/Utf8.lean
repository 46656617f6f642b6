import HackVm.Text.Numeral

/-!
# UTF-8

* `Utf8.decode` : the characters of a byte sequence, or the first place where it is not UTF-8;
* `Utf8.Error` : the offending bytes, where they start, and what is wrong with them;
* `Utf8.encode` : the bytes of a text.
-/

namespace HackVm.Utf8

inductive Reason where
  /-- The byte cannot start a character. -/
  | start
  /-- A byte that has to continue a character does not. -/
  | continuation
  /-- The bytes end inside a character. -/
  | ending
deriving DecidableEq, Repr

def Reason.text : Reason → String
  | .start => "invalid start byte"
  | .continuation => "invalid continuation byte"
  | .ending => "unexpected end of data"

/-- Bytes that are no character: the lead byte and the continuation bytes that fit it. -/
structure Error where
  /-- How many bytes stand before the bad ones. -/
  offset : Nat
  /-- The lead byte. -/
  lead : UInt8
  /-- How many good continuation bytes follow the lead byte. -/
  tails : Nat
  reason : Reason
deriving DecidableEq, Repr

/-- One bad byte is shown by its value, several by the range of their positions. -/
def Error.message (e : Error) : String :=
  let place :=
    if e.tails = 0 then "byte 0x" ++ Numeral.hex 2 e.lead.toNat ++ " in position " ++ toString e.offset
    else "bytes in position " ++ toString e.offset ++ "-" ++ toString (e.offset + e.tails)
  "'utf-8' codec can't decode " ++ place ++ ": " ++ e.reason.text

structure Unfinished where
  lead : UInt8
  /-- Continuation bytes read. -/
  tails : Nat
  /-- The bits read so far. -/
  code : Nat
  /-- Continuation bytes still to come. -/
  owed : Nat
  /-- The least value of the next byte. -/
  low : UInt8
  /-- The greatest value of the next byte. -/
  high : UInt8
deriving DecidableEq, Repr

/-- What a lead byte from `0x80` on announces. The narrowed ranges leave out overlong forms,
surrogates and everything above `0x10ffff`. -/
def Unfinished.ofLead? (b : UInt8) : Option Unfinished :=
  if 0xc2 ≤ b ∧ b ≤ 0xdf then some ⟨b, 0, b.toNat - 0xc0, 1, 0x80, 0xbf⟩
  else if b = 0xe0 then some ⟨b, 0, 0, 2, 0xa0, 0xbf⟩
  else if b = 0xed then some ⟨b, 0, 0xd, 2, 0x80, 0x9f⟩
  else if 0xe1 ≤ b ∧ b ≤ 0xef then some ⟨b, 0, b.toNat - 0xe0, 2, 0x80, 0xbf⟩
  else if b = 0xf0 then some ⟨b, 0, 0, 3, 0x90, 0xbf⟩
  else if 0xf1 ≤ b ∧ b ≤ 0xf3 then some ⟨b, 0, b.toNat - 0xf0, 3, 0x80, 0xbf⟩
  else if b = 0xf4 then some ⟨b, 0, 4, 3, 0x80, 0x8f⟩
  else none

def Unfinished.extend (u : Unfinished) (b : UInt8) : Unfinished :=
  ⟨u.lead, u.tails + 1, u.code * 64 + b.toNat % 64, u.owed - 1, 0x80, 0xbf⟩

/-- Goes on at `offset`, with the characters `done` (last first) behind it and perhaps an
unfinished one. -/
def decodeFrom (offset : Nat) (done : List Char) :
    Option Unfinished → List UInt8 → Except Error (List Char)
  | none, [] => .ok done.reverse
  | some u, [] => .error ⟨offset - u.tails - 1, u.lead, u.tails, .ending⟩
  | none, b :: bs =>
    if b < 0x80 then decodeFrom (offset + 1) (Char.ofNat b.toNat :: done) none bs
    else match Unfinished.ofLead? b with
      | some u => decodeFrom (offset + 1) done (some u) bs
      | none => .error ⟨offset, b, 0, .start⟩
  | some u, b :: bs =>
    if u.low ≤ b ∧ b ≤ u.high then
      let v := u.extend b
      if v.owed = 0 then decodeFrom (offset + 1) (Char.ofNat v.code :: done) none bs
      else decodeFrom (offset + 1) done (some v) bs
    else .error ⟨offset - u.tails - 1, u.lead, u.tails, .continuation⟩

def decode (bytes : List UInt8) : Except Error (List Char) := decodeFrom 0 [] none bytes

def encode (text : String) : List UInt8 := text.toUTF8.toList

end HackVm.Utf8
