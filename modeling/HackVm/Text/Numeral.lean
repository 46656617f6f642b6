/-!
# Decimal numerals

* `Numeral.limit` : the most digits a numeral may have, whether read or written;
* `Numeral.text` : an integer in decimal, with a leading `-` when it is negative;
* `Numeral.Fits` : the integers whose numeral stays within the limit;
* `Numeral.ofDigits` : the value of a run of decimal digits.
-/

namespace HackVm.Numeral

def limit : Nat := 4300

inductive Overlong where
  /-- A numeral of this many digits was to be read; leading zeros count. -/
  | read (digits : Nat)
  /-- An integer with too many digits was to be written. -/
  | written
deriving DecidableEq, Repr

def Overlong.message : Overlong → String
  | .read n => "Exceeds the limit (4300 digits) for integer string conversion: value has "
      ++ toString n ++ " digits; use sys.set_int_max_str_digits() to increase the limit"
  | .written => "Exceeds the limit (4300 digits) for integer string conversion; "
      ++ "use sys.set_int_max_str_digits() to increase the limit"

/-- The integer `n` has at most `limit` digits. -/
def Fits (n : Int) : Prop := n.natAbs < Nat.pow 10 limit

theorem fits_of_lt {n : Int} (h : n.natAbs < 1000000) : Fits n := by
  have hpow : 10 ^ 6 ≤ 10 ^ limit := Nat.pow_le_pow_right (by decide) (by decide)
  rw [Fits, Nat.pow_eq]
  omega

-- The power is out of reach for `decide`, and most numbers are told without it.
instance (n : Int) : Decidable (Fits n) :=
  if h : n.natAbs < 1000000 then isTrue (fits_of_lt h)
  else inferInstanceAs (Decidable (n.natAbs < Nat.pow 10 limit))

/-- The decimal text of an integer, without leading zeros. -/
def text (n : Int) : String := toString n

def ofDigits (cs : List Char) : Except Overlong Nat :=
  if limit < cs.length then .error (.read cs.length) else .ok (Nat.ofDigitChars 10 cs 0)

/-! ## Digits -/

def isDigit (c : Char) : Bool := '0' ≤ c && c ≤ '9'

/-- The lower-case hexadecimal digits of `n`, padded with zeros to `width`. -/
def hex (width n : Nat) : String :=
  let digits := Nat.toDigits 16 n
  String.ofList (List.replicate (width - digits.length) '0' ++ digits)

end HackVm.Numeral
