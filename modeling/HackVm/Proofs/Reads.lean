import HackVm.Text.Blocks

/-!
# Reading in blocks loses nothing

A file gives its text in parts until a part is empty. Whatever the size of the parts is, and also if they
are shorter than asked for, they make up the whole text. A file of bytes gives its text so, unless the bytes
are no text, there is no memory for the blocks, or no index can hold their size.

* `withNewlines` : the text with one kind of line end, said in two passes (`unifyNewlines_eq`);
* `Delivers` : what the reads of a file that holds a text may give;
* `Delivers.readAll_eq` : reading until nothing comes ends, and it gives everything;
* `delivers_openText` : a file of bytes delivers its text;
* `Unusable` : the failures that are due to the size of the blocks;
* `readAll_cases` : everything that reading can come to.
-/

namespace HackVm.Text

/-! ## Newlines -/

def joinPairs : List Char → List Char
  | [] => []
  | '\r' :: '\n' :: cs => '\n' :: joinPairs cs
  | c :: cs => c :: joinPairs cs

/-- The text with each `\r\n` written as `\n`, and then each `\r` that is left. -/
def withNewlines (text : List Char) : List Char :=
  (joinPairs text).map fun c => if c = '\r' then '\n' else c

theorem unifyNewlinesFrom_eq (done text : List Char) :
    unifyNewlinesFrom done text = done.reverse ++ withNewlines text := by
  fun_induction unifyNewlinesFrom done text with
  | case1 done => simp [withNewlines, joinPairs]
  | case2 done cs ih => simp [ih, withNewlines, joinPairs]
  | case3 done c cs hpair ih =>
    have hjoin : joinPairs (c :: cs) = c :: joinPairs cs := joinPairs.eq_3 c cs hpair
    simp [ih, withNewlines, hjoin]

theorem unifyNewlines_eq (text : List Char) : unifyNewlines text = withNewlines text :=
  unifyNewlinesFrom_eq [] text

/-! ## Reads -/

/-- What a read of `size` characters may give when `rest` is left: up to `size` characters, or all of them
if `size` is negative, and none only at the end. -/
structure IsRead (size : Int) (rest part : List Char) : Prop where
  next : part <+: rest
  atMost : 0 ≤ size → part.length ≤ size
  everything : size < 0 → part = rest
  ended : part = [] → rest = []

/-- The reads of `size` characters of a file give a text from any place on. -/
def Delivers (f : Opened) (size : Int) (text : List Char) : Prop :=
  ∀ k ≤ text.length, ∃ part, f.read size k = .ok part ∧ IsRead size (text.drop k) part

theorem Opened.readFrom_of_error {f : Opened} {size : Int} {k : Nat} {e : ReadError}
    (h : f.read size k = .error e) (parts : List (List Char)) : f.readFrom size k parts = .error e := by
  rw [Opened.readFrom]
  split
  · next hread =>
    cases h.symm.trans hread
    rfl
  · next hread => cases h.symm.trans hread
  · next hread => cases h.symm.trans hread

/-- Each part that is not empty leaves a shorter rest, and the first empty one leaves none. -/
theorem Delivers.readFrom_eq {f : Opened} {size : Int} {text : List Char} (h : Delivers f size text)
    {k : Nat} (hk : k ≤ text.length) (parts : List (List Char)) :
    f.readFrom size k parts = .ok (parts.reverse.flatten ++ text.drop k) := by
  obtain ⟨part, hpart, hread⟩ := h k hk
  rw [Opened.readFrom]
  split
  · next he => cases hpart.symm.trans he
  · next he =>
    cases hpart.symm.trans he
    rw [hread.ended rfl, List.append_nil]
  · next c cs he =>
    cases hpart.symm.trans he
    obtain ⟨rest, hrest⟩ := hread.next
    have hlength : (c :: cs).length + rest.length = text.length - k := by
      rw [← List.length_append, hrest, List.length_drop]
    have hdrop : text.drop (k + (c :: cs).length) = rest := by
      rw [← List.drop_drop, ← hrest, List.drop_left]
    have hle : k + (c :: cs).length ≤ text.length := by omega
    rw [h.readFrom_eq hle, hdrop, ← hrest]
    simp
termination_by text.length - k
decreasing_by
  simp only [List.length_cons] at hlength ⊢
  omega

/-- Reading until nothing comes ends, and it gives the whole text. -/
theorem Delivers.readAll_eq {f : Opened} {size : Int} {text : List Char} (h : Delivers f size text) :
    f.readAll (some size) = .ok text := h.readFrom_eq (Nat.zero_le _) []

/-! ## Files of bytes -/

theorem slice_toArray (text : List Char) (size : Int) (k : Nat) :
    slice text.toArray size k =
      if size < 0 then text.drop k else (text.drop k).take size.toNat := by
  unfold slice
  rw [Array.toList_extract]
  split
  · exact List.take_of_length_le (by simp)
  · simp

theorem isRead_slice {size : Int} (h : size ≠ 0) (text : List Char) (k : Nat) :
    IsRead size (text.drop k) (slice text.toArray size k) := by
  rw [slice_toArray]
  split
  · next hneg =>
    exact ⟨List.prefix_refl _, fun hpos => absurd hneg (by omega), fun _ => rfl, id⟩
  · next hpos =>
    refine ⟨List.take_prefix _ _, fun _ => ?_, fun hneg => absurd hneg hpos, fun hnil => ?_⟩
    · have := List.length_take_le size.toNat (text.drop k)
      omega
    · rcases List.take_eq_nil_iff.1 hnil with hzero | hrest
      · omega
      · exact hrest

section OpenText
variable {room : Int → List UInt8 → Bool} {bytes : List UInt8} {cs : List Char} {n : Int}

/-- A file of bytes delivers its text to every read that there can be. -/
theorem delivers_openText (hdecode : Utf8.decode bytes = .ok cs) (hn : n ≠ 0) (hsized : IndexSized n)
    (hroom : room n bytes = true) : Delivers (openText room bytes) n (unifyNewlines cs) := by
  intro k _
  refine ⟨_, ?_, isRead_slice hn _ k⟩
  simp only [openText, hdecode, Except.map, readAt, hsized, hn, hroom, not_true_eq_false, if_false]

/-- Blocks of this size cannot be read of a file of these bytes, whatever text they are. -/
def Unusable (room : Int → List UInt8 → Bool) (size : Option Int) (bytes : List UInt8) : ReadError → Prop
  | .undecodable _ => False
  | .noSize => size = none
  | .sizeOutOfRange => ∃ n, size = some n ∧ ¬ IndexSized n
  | .noMemory => ∃ n, size = some n ∧ room n bytes = false

theorem readAll_zero (room : Int → List UInt8 → Bool) (bytes : List UInt8) :
    (openText room bytes).readAll (some 0) = .ok [] := by
  rw [Opened.readAll, Opened.readFrom]
  rfl

/-- Reading in blocks of some size gives the whole text, unless the bytes are no text or the size is of
no use. -/
theorem readAll_cases {size : Option Int} (h : size ≠ some 0) (room : Int → List UInt8 → Bool)
    (bytes : List UInt8) :
    (∃ cs, Utf8.decode bytes = .ok cs ∧ (openText room bytes).readAll size = .ok (unifyNewlines cs)) ∨
    (∃ u v, Utf8.decode bytes = .error u ∧ (openText room bytes).readAll size = .error (.undecodable v)) ∨
    ∃ e, Unusable room size bytes e ∧ (openText room bytes).readAll size = .error e := by
  cases size with
  | none => exact .inr (.inr ⟨.noSize, rfl, rfl⟩)
  | some n =>
    have hn : n ≠ 0 := fun hzero => h (congrArg some hzero)
    by_cases hsized : IndexSized n
    · cases hroom : room n bytes with
      | false =>
        refine .inr (.inr ⟨.noMemory, ⟨n, rfl, hroom⟩, Opened.readFrom_of_error ?_ []⟩)
        simp [openText, readAt, hsized, hn, hroom]
      | true =>
        cases hdecode : Utf8.decode bytes with
        | error u =>
          refine .inr (.inl ⟨u, reportFor n bytes u, rfl, Opened.readFrom_of_error ?_ []⟩)
          simp [openText, readAt, hsized, hn, hroom, hdecode, Except.map]
        | ok cs => exact .inl ⟨cs, rfl, (delivers_openText hdecode hn hsized hroom).readAll_eq⟩
    · refine .inr (.inr ⟨.sizeOutOfRange, ⟨n, rfl, hsized⟩, Opened.readFrom_of_error ?_ []⟩)
      exact if_pos hsized

end OpenText

end HackVm.Text
