import HackVm.Proofs.LineReading
import HackVm.Proofs.Numerals
import HackVm.Script

/-!
# Printed commands are read back

Commands printed one a line are the commands that reading the lines gives, whatever their names are:
`label push`, `goto if` and `function return.x 0` have names that are keywords elsewhere.

* `Command.Writable` : the commands that a source line can hold;
* `Line.read_text` : the text of a command is read as that command;
* `Line.writable_of_read` : only writable commands are read;
* `Text.splitLines_intercalate` : lines joined by newlines are the lines of the text;
* `Script.read_printed` : printing and reading are inverse.
-/

namespace HackVm

/-- The commands that source text can hold: names as the language has them, numbers without a sign and
within the limit, and nothing taken into `constant`. -/
def Command.Writable : Command → Prop
  | .push _ i => 0 ≤ i ∧ Numeral.Fits i
  | .pop s i => s ≠ .constant ∧ 0 ≤ i ∧ Numeral.Fits i
  | .operate _ => True
  | .label n => Line.IsName n.toList
  | .goto n => Line.IsName n.toList
  | .ifGoto n => Line.IsName n.toList
  | .function n k => Line.IsName n.toList ∧ 0 ≤ k ∧ Numeral.Fits k
  | .call n k => Line.IsName n.toList ∧ 0 ≤ k ∧ Numeral.Fits k
  | .ret => True

def Phrase.ofCommand : Command → Phrase
  | .push s i => .push s.word.toList (Numeral.text i).toList
  | .pop s i => .pop s.word.toList (Numeral.text i).toList
  | .operate o => .operate o.word.toList
  | .label n => .label n.toList
  | .goto n => .goto n.toList
  | .ifGoto n => .ifGoto n.toList
  | .function n k => .function n.toList (Numeral.text k).toList
  | .call n k => .call n.toList (Numeral.text k).toList
  | .ret => .ret

/-! ## The text of a command -/

namespace Line

/-- Tokens with a blank before each of them. -/
def spaced (ts : List (TokenKind × List Char)) : List Char := ts.flatMap fun t => ' ' :: t.2

theorem stops_spaced (k : TokenKind) (ts : List (TokenKind × List Char)) : k.Stops (spaced ts) := by
  intro c hc
  cases ts with
  | nil => cases hc
  | cons t ts =>
    obtain rfl : ' ' = c := Option.some.inj hc
    cases k <;> rfl

theorem written_spaced {ts : List (TokenKind × List Char)} (h : ∀ t ∈ ts, t.1.Spells t.2) :
    Written ts (spaced ts) := by
  induction ts with
  | nil => exact ⟨[], blank_nil, .inl rfl⟩
  | cons t ts ih =>
    rw [List.forall_mem_cons] at h
    refine ⟨[' '], spaced ts, rfl, ?_, h.1, stops_spaced _ _, ih h.2⟩
    intro c hc
    rw [List.mem_singleton.1 hc]
    rfl

theorem Written.spells {ts : List (TokenKind × List Char)} {cs : List Char} (h : Written ts cs) :
    ∀ t ∈ ts, t.1.Spells t.2 := by
  induction ts generalizing cs with
  | nil => exact fun _ ht => nomatch ht
  | cons t ts ih =>
    obtain ⟨g, rest, -, -, hspells, -, hrest⟩ := h
    exact List.forall_mem_cons.2 ⟨hspells, ih hrest⟩

theorem spells_number (n : Nat) : TokenKind.number.Spells (Numeral.text n).toList := by
  refine ⟨?_, fun c hc => Numeral.isDigit_of_mem_text hc⟩
  rw [Numeral.toList_text_natCast]
  exact Nat.toDigits_ne_nil

theorem spells_segment (s : Segment) : TokenKind.word.Spells s.word.toList := by
  have hall : ∀ s ∈ Segment.all, s.word.toList ≠ [] ∧ s.word.toList.all isLower = true := by decide
  have hs : s ∈ Segment.all := List.mem_of_find?_eq_some (Segment.ofWord?_word s)
  exact ⟨(hall s hs).1, List.all_eq_true.1 (hall s hs).2⟩

theorem spells_operator (o : Operator) :
    TokenKind.word.Spells o.word.toList ∧ o.word.toList ∉ keywords := by
  have hall : ∀ o ∈ Operator.all, o.word.toList ≠ [] ∧ o.word.toList.all isLower = true ∧
      o.word.toList ∉ keywords := by decide
  have ho : o ∈ Operator.all := List.mem_of_find?_eq_some (Operator.ofWord?_word o)
  exact ⟨⟨(hall o ho).1, List.all_eq_true.1 (hall o ho).2.1⟩, (hall o ho).2.2⟩

end Line

namespace Phrase
open Line

theorem tokens_ofCommand (c : Command) : ∃ k w ts, (ofCommand c).tokens = (k, w) :: ts ∧
    c.text.toList = w ++ spaced ts := by
  cases c <;> refine ⟨_, _, _, rfl, ?_⟩ <;> simp [Command.text, spaced]

theorem decimal_text {i : Int} (h : 0 ≤ i) : decimal (Numeral.text i).toList = i := by
  obtain ⟨n, rfl⟩ := Int.eq_ofNat_of_zero_le h
  exact congrArg Int.ofNat (Numeral.ofDigitChars_text n)

theorem length_text {i : Int} (h : 0 ≤ i) (hi : Numeral.Fits i) :
    (Numeral.text i).toList.length ≤ 4300 := by
  obtain ⟨n, rfl⟩ := Int.eq_ofNat_of_zero_le h
  exact Numeral.length_text_le hi

theorem spells_text {i : Int} (h : 0 ≤ i) : TokenKind.number.Spells (Numeral.text i).toList := by
  obtain ⟨n, rfl⟩ := Int.eq_ofNat_of_zero_le h
  exact spells_number n

theorem spells_ofCommand {c : Command} (h : c.Writable) :
    ∀ t ∈ (ofCommand c).tokens, t.1.Spells t.2 := by
  cases c with
  | push s i => simpa [ofCommand, tokens] using ⟨rfl, spells_segment s, spells_text h.1⟩
  | pop s i => simpa [ofCommand, tokens] using ⟨rfl, spells_segment s, spells_text h.2.1⟩
  | operate o => simpa [ofCommand, tokens] using (spells_operator o).1
  | label n => simpa [ofCommand, tokens] using ⟨rfl, h⟩
  | goto n => simpa [ofCommand, tokens] using ⟨rfl, h⟩
  | ifGoto n => simpa [ofCommand, tokens] using ⟨rfl, h⟩
  | function n k => simpa [ofCommand, tokens] using ⟨rfl, h.1, spells_text h.2.1⟩
  | call n k => simpa [ofCommand, tokens] using ⟨rfl, h.1, spells_text h.2.1⟩
  | ret => exact List.forall_mem_singleton.2 rfl

theorem spelled_ofCommand {c : Command} (h : c.Writable) : Spelled (ofCommand c) c.text.toList := by
  constructor
  · obtain ⟨k, w, ts, hts, htext⟩ := tokens_ofCommand c
    have hspells := spells_ofCommand h
    rw [hts, List.forall_mem_cons] at hspells
    rw [hts, htext]
    exact ⟨[], spaced ts, rfl, blank_nil, hspells.1, stops_spaced k ts, written_spaced hspells.2⟩
  · intro w hw
    cases c with
    | operate o =>
      cases hw
      exact (spells_operator o).2
    | _ => cases hw

theorem denotes_ofCommand {c : Command} (h : c.Writable) : Denotes (ofCommand c) c := by
  cases c with
  | push s i =>
    have hd := Denotes.push s (length_text h.1 h.2)
    rwa [decimal_text h.1] at hd
  | pop s i =>
    have hd := Denotes.pop h.1 (length_text h.2.1 h.2.2)
    rwa [decimal_text h.2.1] at hd
  | operate o => exact .operate o
  | label n =>
    have hd := Denotes.label n.toList
    rwa [String.ofList_toList] at hd
  | goto n =>
    have hd := Denotes.goto n.toList
    rwa [String.ofList_toList] at hd
  | ifGoto n =>
    have hd := Denotes.ifGoto n.toList
    rwa [String.ofList_toList] at hd
  | function n k =>
    have hd := Denotes.function n.toList (length_text h.2.1 h.2.2)
    rwa [decimal_text h.2.1, String.ofList_toList] at hd
  | call n k =>
    have hd := Denotes.call n.toList (length_text h.2.1 h.2.2)
    rwa [decimal_text h.2.1, String.ofList_toList] at hd
  | ret => exact .ret

end Phrase

namespace Line

/-- The text of a command is read as that command. -/
theorem read_text {c : Command} (h : c.Writable) (number : Int) :
    read c.text.toList number = .ok (some ⟨number, c⟩) :=
  read_eq_ok_some.2 ⟨rfl, _, Phrase.spelled_ofCommand h, Phrase.denotes_ofCommand h⟩

theorem decimal_writable {ds : List Char} (h : TokenKind.number.Spells ds) (hlen : ds.length ≤ 4300) :
    0 ≤ Phrase.decimal ds ∧ Numeral.Fits (Phrase.decimal ds) :=
  ⟨Int.natCast_nonneg _, Numeral.fits_ofDigitChars h.2 hlen⟩

theorem isName_ofList {n : List Char} (h : TokenKind.name.Spells n) :
    IsName (String.ofList n).toList := by
  rw [String.toList_ofList]
  exact h

/-- What is read from a line can be printed. -/
theorem writable_of_read {line : List Char} {number : Int} {st : Statement}
    (h : read line number = .ok (some st)) : st.command.Writable := by
  obtain ⟨line', c⟩ := st
  obtain ⟨-, p, ⟨hw, -⟩, hc⟩ := read_eq_ok_some.1 h
  have hs := hw.spells
  cases hc with
  | push s hlen => exact decimal_writable (hs (.number, _) (by simp [Phrase.tokens])) hlen
  | pop hne hlen => exact ⟨hne, decimal_writable (hs (.number, _) (by simp [Phrase.tokens])) hlen⟩
  | operate o => trivial
  | label n => exact isName_ofList (hs (.name, n) (by simp [Phrase.tokens]))
  | goto n => exact isName_ofList (hs (.name, n) (by simp [Phrase.tokens]))
  | ifGoto n => exact isName_ofList (hs (.name, n) (by simp [Phrase.tokens]))
  | function n hlen =>
    exact ⟨isName_ofList (hs (.name, n) (by simp [Phrase.tokens])),
      decimal_writable (hs (.number, _) (by simp [Phrase.tokens])) hlen⟩
  | call n hlen =>
    exact ⟨isName_ofList (hs (.name, n) (by simp [Phrase.tokens])),
      decimal_writable (hs (.number, _) (by simp [Phrase.tokens])) hlen⟩
  | ret => trivial

end Line

/-! ## Lines of a text -/

namespace Text
open Line

theorem splitLinesFrom_nil {line : List Char} (h : line ≠ []) :
    splitLinesFrom line [] = [line.reverse] :=
  if_neg fun hempty => h (List.isEmpty_iff.1 hempty)

theorem splitLinesFrom_cons {c : Char} (h : isBreak c = false) (line rest : List Char) :
    splitLinesFrom line (c :: rest) = splitLinesFrom (c :: line) rest := by
  rw [splitLinesFrom.eq_def]
  split
  · next hnil => cases hnil
  · next hcons =>
    obtain ⟨rfl, -⟩ := List.cons.inj hcons
    exact absurd h (by decide)
  · next hcons =>
    obtain ⟨rfl, rfl⟩ := List.cons.inj hcons
    rw [if_neg (by rw [h]; exact Bool.false_ne_true)]

theorem splitLinesFrom_append {w : List Char} (h : ∀ c ∈ w, isBreak c = false)
    (line rest : List Char) :
    splitLinesFrom line (w ++ rest) = splitLinesFrom (w.reverse ++ line) rest := by
  induction w generalizing line with
  | nil => rfl
  | cons c w ih =>
    rw [List.forall_mem_cons] at h
    rw [List.cons_append, splitLinesFrom_cons h.1, ih h.2, List.reverse_cons, List.append_assoc]
    rfl

theorem splitLines_intercalate {ts : List String}
    (h : ∀ t ∈ ts, t.toList ≠ [] ∧ ∀ c ∈ t.toList, isBreak c = false) :
    splitLines ("\n".intercalate ts).toList = ts.map String.toList := by
  induction ts with
  | nil => rfl
  | cons t ts ih =>
    rw [List.forall_mem_cons] at h
    obtain ⟨⟨hne, hbreak⟩, hts⟩ := h
    cases ts with
    | nil =>
      rw [String.intercalate_singleton, splitLines, ← List.append_nil t.toList,
        splitLinesFrom_append hbreak, List.append_nil, splitLinesFrom_nil (List.reverse_ne_nil_iff.2 hne),
        List.reverse_reverse]
      rfl
    | cons u ts =>
      rw [String.intercalate_cons_cons, splitLines, String.toList_append, String.toList_append,
        List.append_assoc, splitLinesFrom_append hbreak, List.append_nil, List.map_cons]
      show t.toList.reverse.reverse :: splitLines ("\n".intercalate (u :: ts)).toList = _
      rw [List.reverse_reverse, ih hts]

theorem isBreak_of_isNameRest {c : Char} (h : isNameRest c = true) : isBreak c = false := by
  by_contra hb
  rw [Bool.not_eq_false, isBreak] at hb
  simp only [Bool.or_eq_true, beq_iff_eq] at hb
  rcases hb with ((((((((rfl | rfl) | rfl) | rfl) | rfl) | rfl) | rfl) | rfl) | rfl) | rfl <;>
    exact absurd h (by decide)

theorem isBreak_of_spells {k : TokenKind} {w : List Char} (h : k.Spells w) :
    ∀ c ∈ w, isBreak c = false := by
  intro c hc
  cases k with
  | word => exact isBreak_of_isNameRest (isNameRest_of_isLower (h.2 c hc))
  | number => exact isBreak_of_isNameRest (by simp [isNameRest, h.2 c hc])
  | name =>
    obtain ⟨d, ds, rfl, hd, hds⟩ := h
    rcases List.mem_cons.1 hc with rfl | hc
    · exact isBreak_of_isNameRest (by simp [isNameRest, hd])
    · exact isBreak_of_isNameRest (hds c hc)
  | _ =>
    -- The other kinds have one text each.
    have hall : (w.all fun c => !isBreak c) = true := by
      cases h
      decide
    simpa using List.all_eq_true.1 hall c hc

theorem isBreak_of_mem_spaced {ts : List (TokenKind × List Char)} (h : ∀ t ∈ ts, t.1.Spells t.2) :
    ∀ c ∈ spaced ts, isBreak c = false := by
  intro c hc
  obtain ⟨t, ht, hc⟩ := List.mem_flatMap.1 hc
  rcases List.mem_cons.1 hc with rfl | hc
  · rfl
  · exact isBreak_of_spells (h t ht) c hc

/-- The text of a command is one line that is not empty. -/
theorem text_line {c : Command} (h : c.Writable) :
    c.text.toList ≠ [] ∧ ∀ d ∈ c.text.toList, isBreak d = false := by
  obtain ⟨k, w, ts, hts, htext⟩ := Phrase.tokens_ofCommand c
  have hspells := Phrase.spells_ofCommand h
  rw [hts, List.forall_mem_cons] at hspells
  have hread := read_text h 0
  constructor
  · intro hnil
    rw [hnil] at hread
    cases hread
  · intro d hd
    rw [htext] at hd
    rcases List.mem_append.1 hd with hd | hd
    · exact isBreak_of_spells hspells.1 d hd
    · exact isBreak_of_mem_spaced hspells.2 d hd

end Text

/-! ## Whole texts -/

namespace Script

def printed (cs : List Command) : List Char := ("\n".intercalate (cs.map Command.text)).toList

def numbered (number : Nat) (cs : List Command) : List Statement :=
  (cs.zipIdx number).map fun x => ⟨x.2, x.1⟩

theorem command_numbered (number : Nat) (cs : List Command) :
    (numbered number cs).map Statement.command = cs := by
  simp [numbered, Function.comp_def]

theorem readFrom_texts {cs : List Command} (h : ∀ c ∈ cs, c.Writable) (number : Nat)
    (statements : List Statement) :
    readFrom number statements [] (cs.map fun c => c.text.toList) =
      .accepted (statements.reverse ++ numbered number cs) := by
  induction cs generalizing number statements with
  | nil => simp [readFrom, numbered]
  | cons c cs ih =>
    rw [List.forall_mem_cons] at h
    simp only [List.map_cons, readFrom, Line.read_text h.1]
    rw [ih h.2]
    simp [numbered]

/-- What is read from a text can be printed. -/
theorem writable_of_readFrom {lines : List (List Char)} {number : Nat}
    {statements out : List Statement} {complaints : List Complaint}
    (h : readFrom number statements complaints lines = .accepted out)
    (hs : ∀ st ∈ statements, st.command.Writable) : ∀ st ∈ out, st.command.Writable := by
  induction lines generalizing number statements complaints with
  | nil =>
    unfold readFrom at h
    split at h
    · cases h
      exact fun st hst => hs st (List.mem_reverse.1 hst)
    · cases h
  | cons line lines ih =>
    unfold readFrom at h
    split at h
    · exact ih h hs
    · next st hst =>
      exact ih h (List.forall_mem_cons.2 ⟨Line.writable_of_read hst, hs⟩)
    · exact ih h hs
    · exact ih h hs
    · cases h

theorem read_printed_of_writable {cs : List Command} (h : ∀ c ∈ cs, c.Writable) :
    read (printed cs) = .accepted (numbered 1 cs) := by
  have hlines : Text.splitLines (printed cs) = cs.map fun c => c.text.toList := by
    refine (Text.splitLines_intercalate fun t ht => ?_).trans List.map_map
    obtain ⟨c, hc, rfl⟩ := List.mem_map.1 ht
    exact Text.text_line (h c hc)
  rw [read, hlines, readFrom_texts h]
  rfl

/-- Writable commands, printed one a line, are read back in order, each with the number of its line.
Hence the commands of any text that is accepted are the commands of their own printed form. -/
theorem read_printed :
    (∀ cs : List Command, (∀ c ∈ cs, c.Writable) → read (printed cs) = .accepted (numbered 1 cs)) ∧
    ∀ text statements, read text = .accepted statements →
      ∃ again, read (printed (statements.map Statement.command)) = .accepted again ∧
        again.map Statement.command = statements.map Statement.command := by
  refine ⟨fun cs => read_printed_of_writable, fun text statements h => ?_⟩
  refine ⟨_, read_printed_of_writable fun c hc => ?_, command_numbered 1 _⟩
  obtain ⟨st, hst, rfl⟩ := List.mem_map.1 hc
  exact writable_of_readFrom h (fun _ hnil => nomatch hnil) st hst

/-- Names that are keywords elsewhere. -/
theorem read_printed_keywords :
    read "label push\nfunction return.x 0\ngoto if\npop local 12".toList =
      .accepted [⟨1, .label "push"⟩, ⟨2, .function "return.x" 0⟩, ⟨3, .goto "if"⟩,
        ⟨4, .pop (.based .lcl) 12⟩] := by
  refine read_printed.1 [.label "push", .function "return.x" 0, .goto "if", .pop (.based .lcl) 12] ?_
  have hpush : (Command.label "push").Writable :=
    ⟨'p', _, rfl, by decide, List.all_eq_true.1 (by decide)⟩
  have hfunction : (Command.function "return.x" 0).Writable :=
    ⟨⟨'r', _, rfl, by decide, List.all_eq_true.1 (by decide)⟩, by decide, by decide +kernel⟩
  have hgoto : (Command.goto "if").Writable :=
    ⟨'i', _, rfl, by decide, List.all_eq_true.1 (by decide)⟩
  have hpop : (Command.pop (.based .lcl) 12).Writable := ⟨by decide, by decide, by decide +kernel⟩
  simpa using ⟨hpush, hfunction, hgoto, hpop⟩

end Script

end HackVm
