import HackVm.Text.Pieces

/-!
# Reading a file's text in blocks

* `ReadError` : why a file's text cannot be read;
* `Opened` : a file that is open for reading, as far as its reads show it;
* `Opened.readAll` : the text of a file, read in blocks until nothing comes;
* `openText room bytes` : a file of these bytes, opened as text in UTF-8 with unified newlines, on a host
  that has memory for the blocks that `room` tells.
-/

namespace HackVm.Text

/-! ## Errors -/

inductive ReadError where
  | undecodable (e : Utf8.Error)
  /-- The size of the blocks is a list without elements. -/
  | noSize
  /-- The size of the blocks is beyond what an index can hold. -/
  | sizeOutOfRange
  /-- There is no memory for a block. -/
  | noMemory
deriving DecidableEq, Repr

/-- Running out of memory has no wording. -/
def ReadError.message : ReadError → String
  | .undecodable e => e.message
  | .noSize => "argument should be integer or None, not 'list'"
  | .sizeOutOfRange => "cannot fit 'int' into an index-sized integer"
  | .noMemory => ""

/-! ## Reading until nothing comes -/

structure Opened where
  /-- What a read of so many characters gives when `k` characters have been read before it. -/
  read : Int → Nat → Except ReadError (List Char)
  /-- A place that no read goes beyond. -/
  bound : Nat
  within : ∀ {size k part}, read size k = .ok part → part ≠ [] → k + part.length ≤ bound

namespace Opened

/-- Reads on behind `k` characters, with the parts so far, last first. Every part that is not empty
leaves less of the file. -/
def readFrom (f : Opened) (size : Int) (k : Nat) (parts : List (List Char)) :
    Except ReadError (List Char) :=
  match _hread : f.read size k with
  | .error e => .error e
  | .ok [] => .ok parts.reverse.flatten
  | .ok (c :: cs) => f.readFrom size (k + (c :: cs).length) ((c :: cs) :: parts)
termination_by f.bound - k
decreasing_by
  have := f.within _hread (List.cons_ne_nil c cs)
  simp only [List.length_cons] at this ⊢
  omega

def readAll (f : Opened) : Option Int → Except ReadError (List Char)
  | none => .error .noSize
  | some size => f.readFrom size 0 []

end Opened

/-! ## Files of bytes -/

def IndexSized (size : Int) : Prop := -9223372036854775808 ≤ size ∧ size < 9223372036854775808

instance (size : Int) : Decidable (IndexSized size) := inferInstanceAs (Decidable (_ ∧ _))

/-- Where an error is reported: from the start of the file if all of it is asked for at once. -/
def reportFor (size : Int) (bytes : List UInt8) (e : Utf8.Error) : Utf8.Error :=
  if 0 < size then reported size.toNat bytes e else e

/-- Up to `size` characters behind the first `k`, or all of them if the size is negative. -/
def slice (text : Array Char) (size : Int) (k : Nat) : List Char :=
  (text.extract k (if size < 0 then text.size else k + size.toNat)).toList

theorem slice_within {text : Array Char} {size : Int} {k : Nat} (h : slice text size k ≠ []) :
    k + (slice text size k).length ≤ text.size := by
  have hpos : 0 < (slice text size k).length := List.length_pos_iff.2 h
  unfold slice at hpos ⊢
  rw [Array.length_toList, Array.size_extract] at hpos ⊢
  omega

/-- What a read gives of a file with this text, or with bytes that are no text. Nothing is fetched for a
read of no characters. How far the reads come before bytes that are no text does not show: reading fails
for them anyway. -/
def readAt (room : Int → List UInt8 → Bool) (bytes : List UInt8) (text : Except Utf8.Error (Array Char))
    (size : Int) (k : Nat) : Except ReadError (List Char) :=
  if ¬ IndexSized size then .error .sizeOutOfRange
  else if size = 0 then .ok []
  else if ¬ room size bytes then .error .noMemory
  else match text with
    | .error e => .error (.undecodable (reportFor size bytes e))
    | .ok text => .ok (slice text size k)

def extent : Except Utf8.Error (Array Char) → Nat
  | .error _ => 0
  | .ok text => text.size

theorem readAt_within {room : Int → List UInt8 → Bool} {bytes : List UInt8}
    {text : Except Utf8.Error (Array Char)} {size : Int} {k : Nat} {part : List Char}
    (h : readAt room bytes text size k = .ok part) (hne : part ≠ []) : k + part.length ≤ extent text := by
  unfold readAt at h
  split at h
  · cases h
  · split at h
    · exact absurd (Except.ok.inj h).symm hne
    · split at h
      · cases h
      · cases text with
        | error e => cases h
        | ok text =>
          cases h
          exact slice_within hne

/-- A file of these bytes, opened as text. There is memory to read it in blocks of a size if `room` says
so. -/
def openText (room : Int → List UInt8 → Bool) (bytes : List UInt8) : Opened :=
  let text := (Utf8.decode bytes).map fun cs => (unifyNewlines cs).toArray
  ⟨readAt room bytes text, extent text, readAt_within⟩

end HackVm.Text
