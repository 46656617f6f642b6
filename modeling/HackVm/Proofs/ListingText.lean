import HackVm.Proofs.Annotations
import HackVm.Proofs.Rendering

/-!
# Listings are read back from their text

The text of a listing tells all of its instructions: a name holds no newline, and none of the names that
a program is written with looks like a number.

* `Instruction.read?`, `Listing.read?` : the instructions that lines of assembly stand for;
* `Instruction.Legible` : the instructions that are read back from their own line;
* `Listing.read?_text` : a listing of such instructions is read back;
* `Emitter.Inscribed` : the runs whose files and names fit on a line;
* `Emitter.legible_after` : they emit no other instructions;
* `Emitter.read_render` : what such a run emits is read back from its text.
-/

namespace HackVm
open Instruction

/-! ## Reading assembly -/

def Numeral.natural? (ds : List Char) : Option Nat :=
  if ds ≠ [] ∧ ds.all isDigit then some (Nat.ofDigitChars 10 ds 0) else none

def Numeral.integer? : List Char → Option Int
  | '-' :: ds => (natural? ds).map fun n => -(n : Int)
  | ds => (natural? ds).map fun n => (n : Int)

/-- What follows the `@` of an address instruction: an integer, or else a symbol. -/
def Operand.read (cs : List Char) : Operand :=
  match Numeral.integer? cs with
  | some n => .number n
  | none => .symbol (String.ofList cs)

/-- A computation `dest=comp;jump`, in which `dest=` and `;jump` may be missing. -/
def Instruction.readCompute? (line : List Char) : Option Instruction :=
  let front := line.takeWhile (· != ';')
  let jump := (line.dropWhile (· != ';')).tail
  let (dest, comp) :=
    if '=' ∈ front then (front.takeWhile (· != '='), (front.dropWhile (· != '=')).tail)
    else ([], front)
  if comp = [] then none
  else some (.compute (String.ofList comp) (String.ofList dest) (String.ofList jump))

def Instruction.read? : List Char → Option Instruction
  | '/' :: '/' :: ' ' :: t => some (.comment (String.ofList t))
  | '(' :: t => if t.getLast? = some ')' then some (.label (String.ofList t.dropLast)) else none
  | '@' :: t => some (.address (Operand.read t))
  | line => readCompute? line

def Listing.lines (text : String) : List (List Char) := text.toList.splitOn '\n'

/-- The instructions that the lines of a text stand for, if each line that is not empty stands for one. -/
def Listing.read? (text : String) : Option (List Instruction) :=
  ((lines text).filter (· ≠ [])).mapM Instruction.read?

def Listing.codeLines (text : String) : Nat :=
  (lines text).countP fun line => (Instruction.read? line).any Instruction.isCode

/-! ## Numerals and names -/

namespace Numeral

theorem natural?_text (n : Nat) : natural? (text n).toList = some n := by
  obtain ⟨hne, hdigits⟩ := Line.spells_number n
  rw [natural?, if_pos ⟨hne, List.all_eq_true.2 hdigits⟩, ofDigitChars_text]

/-- An integer is read back from its decimal text. -/
theorem integer?_text (i : Int) : integer? (text i).toList = some i := by
  cases i with
  | ofNat n =>
    have hdigits : ∀ c ∈ (text n).toList, isDigit c = true := fun c hc => isDigit_of_mem_text hc
    have hn := natural?_text n
    show integer? (text n).toList = some (n : Int)
    unfold integer?
    split
    · next ds hds =>
      rw [hds] at hdigits
      exact absurd (hdigits '-' List.mem_cons_self) (by decide)
    · rw [hn]
      rfl
  | negSucc n =>
    have hchars : (text (Int.negSucc n)).toList = '-' :: (text (n + 1 : Nat)).toList := by
      rw [text_negSucc, String.toList_append]
      rfl
    rw [hchars, integer?, natural?_text]
    rfl

theorem natural?_eq_none {cs : List Char} {c : Char} (hc : c ∈ cs) (hd : isDigit c = false) :
    natural? cs = none := by
  refine if_neg ?_
  rintro ⟨-, hall⟩
  rw [List.all_eq_true.1 hall c hc] at hd
  cases hd

/-- Text with a character that is neither a digit nor a minus is no integer. -/
theorem integer?_eq_none {cs : List Char} {c : Char} (hc : c ∈ cs) (hd : isDigit c = false)
    (hminus : c ≠ '-') : integer? cs = none := by
  unfold integer?
  split
  · next ds =>
    have hds : c ∈ ds := (List.mem_cons.1 hc).resolve_left hminus
    rw [natural?_eq_none hds hd]
    rfl
  · rw [natural?_eq_none hc hd]
    rfl

theorem newline_not_mem_text (i : Int) : '\n' ∉ (text i).toList :=
  not_mem_text (by decide) (by decide) i

end Numeral

/-- The text is one line, and holds a character that no integer holds. -/
structure IsSymbol (name : String) : Prop where
  line : '\n' ∉ name.toList
  marked : ∃ c ∈ name.toList, Numeral.isDigit c = false ∧ c ≠ '-'

theorem IsSymbol.append {s t : String} (h : IsSymbol s) (ht : '\n' ∉ t.toList) : IsSymbol (s ++ t) := by
  obtain ⟨c, hc, hmark⟩ := h.marked
  exact ⟨by simp [h.line, ht], c, by simp [hc], hmark⟩

theorem IsSymbol.behind {s t : String} (h : IsSymbol t) (hs : '\n' ∉ s.toList) : IsSymbol (s ++ t) := by
  obtain ⟨c, hc, hmark⟩ := h.marked
  exact ⟨by simp [h.line, hs], c, by simp [hc], hmark⟩

namespace Line

theorem isDigit_of_isNameStart {c : Char} (h : isNameStart c = true) : Numeral.isDigit c = false := by
  by_contra hd
  rw [Bool.not_eq_false, Numeral.isDigit, Bool.and_eq_true, decide_eq_true_iff, decide_eq_true_iff] at hd
  obtain ⟨hlow, hhigh⟩ := hd
  simp only [isNameStart, isLower, Bool.or_eq_true, Bool.and_eq_true, decide_eq_true_eq, beq_iff_eq] at h
  rcases h with ((((⟨h, -⟩ | ⟨h, -⟩) | rfl) | rfl) | rfl) | rfl
  · exact absurd (Char.le_trans h hhigh) (by decide)
  · exact absurd (Char.le_trans h hhigh) (by decide)
  · exact absurd hhigh (by decide)
  · exact absurd hlow (by decide)
  · exact absurd hlow (by decide)
  · exact absurd hhigh (by decide)

theorem IsName.newline_not_mem {w : List Char} (h : IsName w) : '\n' ∉ w := by
  intro hmem
  have hbreak := Text.isBreak_of_spells (k := .name) h '\n' hmem
  exact absurd hbreak (by decide)

theorem IsName.isSymbol {name : String} (h : IsName name.toList) : IsSymbol name := by
  refine ⟨h.newline_not_mem, ?_⟩
  obtain ⟨c, cs, hname, hc, -⟩ := h
  rw [hname]
  refine ⟨c, List.mem_cons_self, isDigit_of_isNameStart hc, ?_⟩
  rintro rfl
  exact absurd hc (by decide)

end Line

namespace Naming

theorem isSymbol_static {file : String} (h : '\n' ∉ file.toList) (index : Int) :
    IsSymbol (static file index) := by
  have hdot : IsSymbol "." := ⟨by decide, '.', by decide, by decide, by decide⟩
  exact (hdot.behind h).append (Numeral.newline_not_mem_text index)

theorem isSymbol_label {scope : String} (h : '\n' ∉ scope.toList) {name : String}
    (hname : '\n' ∉ name.toList) : IsSymbol (scope ++ "$" ++ name) := by
  have hdollar : IsSymbol "$" := ⟨by decide, '$', by decide, by decide, by decide⟩
  exact (hdollar.behind h).append hname

theorem isSymbol_returnTo {function : String} (h : '\n' ∉ function.toList) (n : Int) :
    IsSymbol (returnTo function (some n)) := by
  have hmark : IsSymbol "$ret." := ⟨by decide, '$', by decide, by decide, by decide⟩
  exact (hmark.behind h).append (Numeral.newline_not_mem_text n)

theorem isSymbol_whenTrue (n : Int) : IsSymbol (whenTrue (some n)) := by
  have hmark : IsSymbol "CMP$TRUE$" := ⟨by decide, '$', by decide, by decide, by decide⟩
  exact hmark.append (Numeral.newline_not_mem_text n)

theorem isSymbol_whenDone (n : Int) : IsSymbol (whenDone (some n)) := by
  have hmark : IsSymbol "CMP$END$" := ⟨by decide, '$', by decide, by decide, by decide⟩
  exact hmark.append (Numeral.newline_not_mem_text n)

end Naming

/-! ## Instructions -/

/-- The instruction takes one line, from which it is read back. -/
def Instruction.Legible (i : Instruction) : Prop :=
  '\n' ∉ i.text.toList ∧ read? i.text.toList = some i

instance : DecidablePred Instruction.Legible := fun _ => instDecidableAnd

theorem legible_number (n : Int) : (number n).Legible := by
  have hchars : (number n).text.toList = '@' :: (Numeral.text n).toList := String.toList_append
  rw [Instruction.Legible, hchars]
  constructor
  · simpa using Numeral.newline_not_mem_text n
  · rw [read?, Operand.read, Numeral.integer?_text]
    rfl

theorem IsSymbol.legible {name : String} (h : IsSymbol name) : (symbol name).Legible := by
  have hchars : (symbol name).text.toList = '@' :: name.toList := String.toList_append
  obtain ⟨c, hc, hd, hminus⟩ := h.marked
  rw [Instruction.Legible, hchars]
  constructor
  · simpa using h.line
  · rw [read?, Operand.read, Numeral.integer?_eq_none hc hd hminus, String.ofList_toList]
    rfl

theorem legible_label {name : String} (h : '\n' ∉ name.toList) : (label name).Legible := by
  have hchars : (label name).text.toList = '(' :: (name.toList ++ [')']) := by
    simp [Instruction.text]
  rw [Instruction.Legible, hchars]
  constructor
  · simpa using h
  · rw [read?, if_pos List.getLast?_concat, List.dropLast_concat, String.ofList_toList]

theorem legible_comment {t : String} (h : '\n' ∉ t.toList) : (comment t).Legible := by
  have hchars : (comment t).text.toList = '/' :: '/' :: ' ' :: t.toList := String.toList_append
  rw [Instruction.Legible, hchars]
  constructor
  · simpa using h
  · rw [read?, String.ofList_toList]

/-! ## Texts -/

namespace Listing

/-- Each instruction has a line of its own, which is not empty. -/
theorem filter_lines_text {l : Listing} (h : ∀ i ∈ l.toList, i.Legible) :
    (lines l.text).filter (· ≠ []) = l.toList.map fun i => i.text.toList := by
  have hchars : l.text.toList =
      ['\n'].intercalate (l.toList.map fun i => i.text.toList) ++ '\n' :: [] := by
    rw [text, String.toList_append, String.toList_intercalate, List.map_map]
    rfl
  -- The newline at the end leaves one more line, an empty one, behind those of the instructions.
  have hcut : lines l.text =
      (['\n'].intercalate (l.toList.map fun i => i.text.toList)).splitOn '\n' ++ [[]] := by
    rw [lines, hchars]
    exact List.splitOnP_append_cons _ _ (beq_self_eq_true '\n')
  have hnonempty : ∀ line ∈ l.toList.map fun i => i.text.toList, line ≠ [] ∧ '\n' ∉ line := by
    intro line hline
    obtain ⟨i, hi, rfl⟩ := List.mem_map.1 hline
    refine ⟨fun hnil => ?_, (h i hi).1⟩
    have hread := (h i hi).2
    rw [hnil] at hread
    cases hread
  generalize (l.toList.map fun i => i.text.toList) = texts at hcut hnonempty
  rw [hcut, List.filter_append]
  cases texts with
  | nil =>
    -- Joining no lines gives the empty text, which is itself cut into one empty line.
    rfl
  | cons line texts =>
    rw [List.splitOn_intercalate '\n' (fun line hline => (hnonempty line hline).2) (List.cons_ne_nil _ _),
      List.filter_eq_self.2]
    · exact List.append_nil _
    · intro line hline
      exact decide_eq_true (hnonempty line hline).1

theorem mapM_read? {code : List Instruction} (h : ∀ i ∈ code, i.Legible) :
    (code.map fun i => i.text.toList).mapM Instruction.read? = some code := by
  induction code with
  | nil => rfl
  | cons i code ih =>
    rw [List.forall_mem_cons] at h
    rw [List.map_cons, List.mapM_cons, h.1.2, ih h.2]
    rfl

/-- A listing is read back from its text. -/
theorem read?_text {l : Listing} (h : ∀ i ∈ l.toList, i.Legible) : read? l.text = some l.toList := by
  rw [read?, filter_lines_text h, mapM_read? h]

theorem codeLines_text {l : Listing} (h : ∀ i ∈ l.toList, i.Legible) : codeLines l.text = l.codeSize := by
  -- Empty lines stand for nothing, so they may be left out of the count.
  have hempty : ∀ line : List Char, ((Instruction.read? line).any isCode && decide (line ≠ [])) =
      (Instruction.read? line).any isCode := by
    intro line
    cases line with
    | nil => rfl
    | cons c line => rw [decide_eq_true (List.cons_ne_nil c line), Bool.and_true]
  have hfilter := List.countP_filter (l := lines l.text)
    (p := fun line => (Instruction.read? line).any isCode) (q := fun line => decide (line ≠ []))
  simp only [hempty] at hfilter
  rw [codeLines, ← hfilter, filter_lines_text h, List.countP_map]
  refine List.countP_congr fun i hi => ?_
  rw [Function.comp_apply, (h i hi).2]
  rfl

theorem eq_text_of_render {l : Listing} {s : String} (h : l.render = .ok s) : l.text = s := by
  unfold render at h
  split at h
  · exact Except.ok.inj h
  · cases h

theorem toList_eq_nil_iff {l : Listing} (h : ∀ i ∈ l.toList, i.Legible) :
    l.toList = [] ↔ l.text = "\n" := by
  constructor
  · intro hnil
    rw [text, hnil]
    rfl
  · intro htext
    have hread := read?_text h
    rw [htext] at hread
    exact (Option.some.inj hread).symm

end Listing

/-! ## Code -/

def Command.Named : Command → Prop
  | .label n => Line.IsName n.toList
  | .goto n => Line.IsName n.toList
  | .ifGoto n => Line.IsName n.toList
  | .function n _ => Line.IsName n.toList
  | .call n _ => Line.IsName n.toList
  | _ => True

theorem Command.Named.newline_not_mem {c : Command} (h : c.Named) : '\n' ∉ c.text.toList := by
  have hnumeral := Numeral.newline_not_mem_text
  have hsegment : ∀ s : Segment, '\n' ∉ s.word.toList := by
    intro s
    cases s with
    | based b => cases b <;> decide
    | _ => decide
  cases c with
  | push s i => simp [Command.text, hnumeral, hsegment]
  | pop s i => simp [Command.text, hnumeral, hsegment]
  | operate o =>
    cases o with
    | unary u => cases u <;> decide
    | binary b => cases b <;> decide
    | compare c => cases c <;> decide
  | label n => simp [Command.text, Line.IsName.newline_not_mem h]
  | goto n => simp [Command.text, Line.IsName.newline_not_mem h]
  | ifGoto n => simp [Command.text, Line.IsName.newline_not_mem h]
  | function n k => simp [Command.text, hnumeral, Line.IsName.newline_not_mem h]
  | call n k => simp [Command.text, hnumeral, Line.IsName.newline_not_mem h]
  | ret => decide

namespace Block

theorem legible_pushD : ∀ i ∈ pushD, i.Legible := by decide +kernel

theorem legible_popD : ∀ i ∈ popD, i.Legible := by decide +kernel

theorem legible_load {s : Segment} {i : Int} {file : String} (hfile : '\n' ∉ file.toList)
    {code : List Instruction} (h : load s i file = .ok code) : ∀ i ∈ code, i.Legible := by
  cases s with
  | constant =>
    cases h
    exact List.forall_mem_cons.2 ⟨legible_number i, by decide +kernel⟩
  | based b =>
    cases h
    have hcell : (symbol b.cell).Legible := by cases b <;> decide +kernel
    simp only [List.forall_mem_cons, legible_number, hcell, true_and]
    decide +kernel
  | pointer =>
    obtain ⟨n, -, hcode⟩ := bind_eq_ok.1 h
    cases hcode
    exact List.forall_mem_cons.2 ⟨legible_number n, by decide +kernel⟩
  | temp =>
    obtain ⟨n, -, hcode⟩ := bind_eq_ok.1 h
    cases hcode
    exact List.forall_mem_cons.2 ⟨legible_number n, by decide +kernel⟩
  | static =>
    obtain ⟨name, hname, hcode⟩ := bind_eq_ok.1 h
    obtain ⟨-, rfl⟩ := staticCell_eq_ok.1 hname
    cases hcode
    exact List.forall_mem_cons.2 ⟨(Naming.isSymbol_static hfile i).legible, by decide +kernel⟩

theorem legible_push {s : Segment} {i : Int} {file : String} (hfile : '\n' ∉ file.toList)
    {code : List Instruction} (h : push s i file = .ok code) : ∀ i ∈ code, i.Legible := by
  obtain ⟨loading, hload, hcode⟩ := bind_eq_ok.1 h
  cases hcode
  exact List.forall_mem_append.2 ⟨legible_load hfile hload, legible_pushD⟩

/-- The code that stores the word at the top of the stack in the cell of an operand. -/
theorem legible_popTo {o : Operand} (h : (Instruction.address o).Legible) :
    ∀ i ∈ popD ++ [.address o, assign "M" "D"], i.Legible :=
  List.forall_mem_append.2 ⟨legible_popD, List.forall_mem_cons.2 ⟨h, by decide +kernel⟩⟩

theorem legible_pop {s : Segment} {i : Int} {file : String} (hfile : '\n' ∉ file.toList)
    {code : List Instruction} (h : pop s i file = .ok code) : ∀ i ∈ code, i.Legible := by
  cases s with
  | constant => cases h
  | based b =>
    cases h
    have hcell : (symbol b.cell).Legible := by cases b <;> decide +kernel
    simp only [List.forall_mem_append, List.forall_mem_cons, legible_number, hcell, true_and]
    decide +kernel
  | pointer =>
    obtain ⟨n, -, hcode⟩ := bind_eq_ok.1 h
    cases hcode
    exact legible_popTo (legible_number n)
  | temp =>
    obtain ⟨n, -, hcode⟩ := bind_eq_ok.1 h
    cases hcode
    exact legible_popTo (legible_number n)
  | static =>
    obtain ⟨-, rfl⟩ := pop_static_eq_ok.1 h
    exact legible_popTo (Naming.isSymbol_static hfile i).legible

theorem legible_compare (c : Comparison) (n : Int) : ∀ i ∈ compare c (some n), i.Legible := by
  have hcondition : (jumpIf "D" c.condition).Legible := by cases c <;> decide +kernel
  have htrue := Naming.isSymbol_whenTrue n
  have hdone := Naming.isSymbol_whenDone n
  simp only [compare, List.forall_mem_cons, htrue.legible, hdone.legible, legible_label htrue.line,
    legible_label hdone.line, hcondition, true_and]
  decide +kernel

theorem legible_call {name : String} (h : Line.IsName name.toList) (k n : Int) :
    ∀ i ∈ call name k (some n), i.Legible := by
  have hreturn := Naming.isSymbol_returnTo h.newline_not_mem n
  simp only [call, List.forall_mem_append, List.forall_mem_cons, hreturn.legible, h.isSymbol.legible,
    legible_label hreturn.line, legible_number, true_and]
  decide +kernel

theorem legible_function {name : String} (h : Line.IsName name.toList) (k : Int) :
    ∀ i ∈ function name k, i.Legible := by
  have hzero : ∀ i ∈ pushZero, i.Legible := by decide +kernel
  refine List.forall_mem_cons.2 ⟨legible_label h.newline_not_mem, fun i hi => ?_⟩
  obtain ⟨zero, hmem, hi⟩ := List.mem_flatten.1 hi
  rw [(List.mem_replicate.1 hmem).2] at hi
  exact hzero i hi

end Block

namespace Emitter

/-- The runs whose files and names fit on a line, and that start the stack at a number. -/
structure Inscribed (options : Options) (orders : List Order) : Prop where
  base : ∃ n, options.stackBase = .number n
  entry : Line.IsName options.entry.toList
  file : ∀ file, .enter file ∈ orders → '\n' ∉ file.toList
  command : ∀ o ∈ orders, ∀ c, o.origin? = some (.command c) → c.Named

structure Clear (options : Options) (e : Emitter) : Prop where
  options : e.options = options
  place : e.Located (fun n => '\n' ∉ n.toList) (fun n => '\n' ∉ n.toList)
  listing : ∀ i ∈ e.listing.toList, i.Legible

theorem legible_of_prepare {options : Options} (hbase : ∃ n, options.stackBase = .number n)
    (hentry : Line.IsName options.entry.toList) {e : Emitter} (he : e.Clear options) {g : Origin}
    (hg : ∀ c, g = .command c → c.Named) {code : List Instruction} (h : (e.prepare g).2 = .ok code) :
    ∀ i ∈ code, i.Legible := by
  cases g with
  | bootstrap =>
    cases h
    obtain ⟨n, hn⟩ := hbase
    rw [he.options, hn]
    refine List.forall_mem_append.2 ⟨?_, Block.legible_call hentry 0 _⟩
    exact List.forall_mem_cons.2 ⟨legible_number n, by decide +kernel⟩
  | command c =>
    have hc := hg c rfl
    cases c with
    | push s i => exact Block.legible_push he.place.file (withSegment_eq_ok h)
    | pop s i => exact Block.legible_pop he.place.file (withSegment_eq_ok h)
    | operate o =>
      cases o with
      | unary u => cases h; cases u <;> decide +kernel
      | binary b => cases h; cases b <;> decide +kernel
      | compare c => cases h; exact Block.legible_compare c _
    | label n =>
      cases h
      have hsymbol := Naming.isSymbol_label he.place.scope (Line.IsName.newline_not_mem hc)
      rw [Block.label, Naming.label_eq]
      exact List.forall_mem_cons.2 ⟨legible_label hsymbol.line, List.forall_mem_nil _⟩
    | goto n =>
      cases h
      have hsymbol := Naming.isSymbol_label he.place.scope (Line.IsName.newline_not_mem hc)
      rw [Block.goto, Naming.label_eq]
      exact List.forall_mem_cons.2 ⟨hsymbol.legible, by decide +kernel⟩
    | ifGoto n =>
      cases h
      have hsymbol := Naming.isSymbol_label he.place.scope (Line.IsName.newline_not_mem hc)
      rw [Block.ifGoto, Naming.label_eq]
      refine List.forall_mem_append.2 ⟨Block.legible_popD, ?_⟩
      exact List.forall_mem_cons.2 ⟨hsymbol.legible, by decide +kernel⟩
    | function n k => cases h; exact Block.legible_function hc k
    | call n k => cases h; exact Block.legible_call hc k _
    | ret => cases h; decide +kernel

theorem legible_annotation {e : Emitter} {o : Order}
    (ho : ∀ c, o.origin? = some (.command c) → c.Named) : ∀ i ∈ e.annotation o.note, i.Legible := by
  have hnote : ∀ t, o.note = some t → '\n' ∉ t.toList := by
    intro t ht
    cases o with
    | bootstrap => cases ht; decide
    | command c => cases ht; exact (ho c rfl).newline_not_mem
    | _ => cases ht
  intro i hi
  unfold annotation at hi
  split at hi
  · next t ht =>
    split at hi
    · rw [List.mem_singleton.1 hi]
      exact legible_comment (hnote t ht)
    · cases hi
  · cases hi

theorem Clear.run {options : Options} {orders : List Order} (h : Inscribed options orders) {o : Order}
    (ho : o ∈ orders) {e : Emitter} (he : e.Clear options) : (e.run o).1.Clear options := by
  refine ⟨(options_run e o).trans he.options, he.place.run ?_ ?_, ?_⟩
  · rintro file rfl
    exact h.file file ho
  · intro f k hf
    exact Line.IsName.newline_not_mem (h.command o ho _ hf)
  · rcases e.run_cases o with ⟨-, ha⟩ | ⟨b, hb, hemits⟩
    · rw [ha.listing]
      exact he.listing
    · obtain ⟨g, code, hg, hcode, rfl⟩ := emitted?_eq_some hb
      have hnamed : ∀ c, g = .command c → c.Named := fun c hc => h.command o ho c (hc ▸ hg)
      rw [hemits.listing]
      refine List.forall_mem_append.2 ⟨he.listing, List.forall_mem_append.2 ⟨?_, ?_⟩⟩
      · exact legible_annotation (h.command o ho)
      · exact legible_of_prepare h.base h.entry he hnamed hcode

/-- All that such a run emits is read back from its own line. -/
theorem legible_after {options : Options} {orders : List Order} (h : Inscribed options orders) :
    ∀ i ∈ (({ options := options } : Emitter).after orders).listing.toList, i.Legible := by
  have hstart : ({ options := options } : Emitter).Clear options :=
    ⟨rfl, ⟨(by decide : '\n' ∉ "".toList), fun _ hf => nomatch hf⟩, fun _ hi => nomatch hi⟩
  exact (after_invariant hstart fun e o ho he => he.run h ho).listing

/-- The listing of a run whose numbers are not too long has a text, and its lines stand for the
instructions of the listing. So as many lines stand for code as the listing takes words, only the empty
listing is one empty line, and no other run leads to another listing with the same text. -/
theorem read_render (options : Options) (orders : List Order) (h : Inscribed options orders)
    (hfits : ∀ n ∈ numbersIn (({ options := options } : Emitter).after orders).listing.toList,
      Numeral.Fits n) :
    let l := (({ options := options } : Emitter).after orders).listing
    ∃ text, l.render = .ok text ∧ Listing.read? text = some l.toList ∧
      Listing.codeLines text = l.codeSize ∧ (l.toList = [] ↔ text = "\n") ∧
      ∀ options' orders', Inscribed options' orders' →
        (({ options := options' } : Emitter).after orders').listing.render = .ok text →
        (({ options := options' } : Emitter).after orders').listing = l := by
  intro l
  have hl : ∀ i ∈ l.toList, i.Legible := legible_after h
  refine ⟨l.text, Listing.render_of_fits hfits, Listing.read?_text hl, Listing.codeLines_text hl,
    Listing.toList_eq_nil_iff hl, fun options' orders' h' hrender => ?_⟩
  have hread := Listing.read?_text (legible_after h')
  rw [Listing.eq_text_of_render hrender, Listing.read?_text hl] at hread
  exact Listing.toList_injective (Option.some.inj hread).symm

def misleading : List Order :=
  [.bootstrap, .enter "(-1)=@2;// 3", .command (.push .static 4), .bare (.label "$_"),
    .command (.function "D.1" 1), .operator "lt", .access .pop "temp" 5, .command (.call "JMP" 0)]

theorem read_render_misleading :
    let l := (({ options := { annotate := true, stackBase := .number (-7), entry := ":" } } : Emitter).after
      misleading).listing
    ∃ text, l.render = .ok text ∧ Listing.read? text = some l.toList ∧ Listing.codeLines text = 130 := by
  have horigins : misleading.filterMap Order.origin? = [.bootstrap, .command (.push .static 4),
      .command (.label "$_"), .command (.function "D.1" 1), .command (.operate (.compare .lt)),
      .command (.pop .temp 5), .command (.call "JMP" 0)] := by
    decide
  have hinscribed : Inscribed { annotate := true, stackBase := .number (-7), entry := ":" } misleading := by
    refine ⟨⟨-7, rfl⟩, ⟨':', [], rfl, by decide, nofun⟩, fun file hfile => ?_, fun o ho c hc => ?_⟩
    · obtain rfl : file = "(-1)=@2;// 3" := by simpa [misleading] using hfile
      decide
    · have hmem := List.mem_filterMap.2 ⟨o, ho, hc⟩
      rw [horigins] at hmem
      simp only [List.mem_cons, reduceCtorEq, Origin.command.injEq, List.not_mem_nil, false_or, or_false]
        at hmem
      rcases hmem with rfl | rfl | rfl | rfl | rfl | rfl
      · trivial
      · exact ⟨'$', ['_'], rfl, by decide, List.all_eq_true.1 (by decide)⟩
      · exact ⟨'D', ['.', '1'], rfl, by decide, List.all_eq_true.1 (by decide)⟩
      · trivial
      · trivial
      · exact ⟨'J', ['M', 'P'], rfl, by decide, List.all_eq_true.1 (by decide)⟩
  obtain ⟨text, hrender, hread, hlines, -⟩ := read_render _ misleading hinscribed (by decide +kernel)
  exact ⟨text, hrender, hread, hlines.trans (by decide +kernel)⟩

end Emitter

end HackVm
