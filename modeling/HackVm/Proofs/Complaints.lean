import HackVm.Proofs.Printing

/-!
# Every bad line is reported

Reading a text reads its lines one by one, and what it tells of a line depends on that line and on its
number alone. So the complaints about a text are those about its bad lines, each with the number of its
line and a column inside it, and two texts with a newline between them are read as one after the other.

* `Line.Within`, `Line.Reports` : a column of a line, and readers that only report such columns;
* `Text.splitLinesFrom_seam` : the lines of two texts with a newline between them;
* `Script.Legible` : the texts without a number that is too long to be read;
* `Script.Tells` : how the result of reading goes with the lines;
* `Script.read_tells` : reading tells of every line, and goes along with joining texts.
-/

namespace HackVm

/-! ## Columns -/

namespace Line

def Within (line : List Char) (column : Nat) : Prop := 1 ≤ column ∧ column ≤ line.length

/-- A misreading is reported inside the line. -/
def Reports {α : Type} (line : List Char) : Except Misreading α → Prop
  | .error m => Within line m.column
  | .ok _ => True

variable {α β : Type} {line : List Char}

theorem Reports.bind {x : Except Misreading α} {f : α → Except Misreading β} (hx : Reports line x)
    (hf : ∀ a, x = .ok a → Reports line (f a)) : Reports line (x >>= f) := by
  cases x with
  | error m => exact hx
  | ok a => exact hf a rfl

theorem Reports.map {x : Except Misreading α} (hx : Reports line x) (f : α → β) :
    Reports line (x.map f) := by
  cases x with
  | error m => exact hx
  | ok a => trivial

namespace Cursor

theorem within_of_rest {c : Cursor} (h : c.rest ≠ []) : Within c.line c.column := by
  have hpos : 0 < c.rest.length := List.length_pos_iff.2 h
  constructor
  · show 1 ≤ c.passed.length + 1
    omega
  · show c.passed.length + 1 ≤ (c.passed.reverse ++ c.rest).length
    rw [List.length_append, List.length_reverse]
    omega

/-- The next token of a line, or what stands in its place, starts inside the line. -/
theorem reports_next? (c : Cursor) (p : Place) (last : Option Token) :
    Reports c.line (c.next? p last) ∧
    ∀ t c', c.next? p last = .ok (some (t, c')) → Within c.line t.column ∧ c'.line = c.line := by
  unfold next?
  by_cases hend : c.skipGap.rest = []
  · simp [hend, Reports]
  · have hwithin : Within c.line c.skipGap.column := by
      rw [← c.line_skipGap]
      exact within_of_rest hend
    simp only [List.isEmpty_iff, if_neg hend]
    split
    · next kind n hscan =>
      refine ⟨trivial, fun t c' h => ?_⟩
      cases h
      exact ⟨hwithin, by rw [line_advance, line_skipGap]⟩
    · split
      · exact ⟨hwithin, fun t c' h => nomatch h⟩
      · exact ⟨hwithin, fun t c' h => nomatch h⟩

theorem reports_next {c : Cursor} (p : Place) {last : Token} (hlast : Within c.line last.column) :
    Reports c.line (c.next p last) ∧
    ∀ t c', c.next p last = .ok (t, c') → Within c.line t.column ∧ c'.line = c.line := by
  obtain ⟨hreports, hnext⟩ := c.reports_next? p (some last)
  refine ⟨?_, fun t c' h => hnext t c' (next_eq_ok.1 h)⟩
  unfold next
  cases h : c.next? p (some last) with
  | error m =>
    rw [h] at hreports
    exact hreports
  | ok o =>
    cases o with
    | none => exact hlast  -- The line ends too early, which is reported at its last token.
    | some r => trivial

theorem reports_finish (c : Cursor) (last : Token) : Reports c.line (c.finish last) := by
  have hreports := (c.reports_next? .finish (some last)).1
  unfold finish
  cases h : c.next? .finish (some last) with
  | error m =>
    rw [h] at hreports
    exact hreports
  | ok o => trivial

end Cursor

end Line

namespace Phrase
open Line

variable {t : Token} {c : Cursor}

theorem reports_readName (ht : Within c.line t.column) : Reports c.line (readName t c) := by
  obtain ⟨hname, hnext⟩ := Cursor.reports_next .name ht
  refine hname.bind fun r hr => ?_
  obtain ⟨-, hline⟩ := hnext r.1 r.2 hr
  rw [← hline]
  exact (r.2.reports_finish r.1).bind fun _ _ => trivial

theorem reports_readNumber {α : Type} (f : Token → α) (ht : Within c.line t.column) :
    Reports c.line (do
      let (number, c) ← c.next .number t
      c.finish number
      return f number) := by
  obtain ⟨hnumber, hnext⟩ := Cursor.reports_next .number ht
  refine hnumber.bind fun r hr => ?_
  obtain ⟨-, hline⟩ := hnext r.1 r.2 hr
  rw [← hline]
  exact (r.2.reports_finish r.1).bind fun _ _ => trivial

theorem reports_readAccess (ht : Within c.line t.column) : Reports c.line (readAccess t c) := by
  obtain ⟨hsegment, hnext⟩ := Cursor.reports_next .segment ht
  refine hsegment.bind fun r hr => ?_
  obtain ⟨hcolumn, hline⟩ := hnext r.1 r.2 hr
  rw [← hline] at hcolumn ⊢
  exact reports_readNumber (fun number => (r.1.text, number.text)) hcolumn

theorem reports_readCount (ht : Within c.line t.column) : Reports c.line (readCount t c) := by
  obtain ⟨hname, hnext⟩ := Cursor.reports_next .name ht
  refine hname.bind fun r hr => ?_
  obtain ⟨hcolumn, hline⟩ := hnext r.1 r.2 hr
  rw [← hline] at hcolumn ⊢
  exact reports_readNumber (fun number => (r.1.text, number.text)) hcolumn

theorem reports_readFrom (ht : Within c.line t.column) : Reports c.line (readFrom t c) := by
  unfold readFrom
  cases t.kind with
  | push => exact (reports_readAccess ht).map _
  | pop => exact (reports_readAccess ht).map _
  | label => exact (reports_readName ht).map _
  | goto => exact (reports_readName ht).map _
  | ifGoto => exact (reports_readName ht).map _
  | function => exact (reports_readCount ht).map _
  | call => exact (reports_readCount ht).map _
  | ret => exact (c.reports_finish t).map _
  | word => exact (c.reports_finish t).map _
  | name => exact (c.reports_finish t).map _
  | number => exact (c.reports_finish t).map _

/-- A line that cannot be read goes wrong inside the line. -/
theorem reports_read (line : List Char) : Reports line (read line) := by
  obtain ⟨hreports, hnext⟩ := (Cursor.ofLine line).reports_next? .start none
  unfold read
  cases h : (Cursor.ofLine line).next? .start none with
  | error m =>
    rw [h] at hreports
    exact hreports
  | ok o =>
    cases o with
    | none => trivial
    | some r =>
      obtain ⟨t, c⟩ := r
      obtain ⟨hcolumn, hline⟩ := hnext t c h
      rw [← hline] at hcolumn
      have hfrom : Reports c.line (readFrom t c) := reports_readFrom hcolumn
      rw [hline] at hfrom
      exact hfrom.map some

end Phrase

/-! ## Lines of joined texts -/

namespace Text

theorem splitLinesFrom_break {c : Char} {rest : List Char} (h : isBreak c = true)
    (hpair : ∀ t, c = '\r' → rest = '\n' :: t → False) (line : List Char) :
    splitLinesFrom line (c :: rest) = line.reverse :: splitLinesFrom [] rest := by
  rw [splitLinesFrom.eq_def]
  split
  · next hnil => cases hnil
  · next cs hcons =>
    obtain ⟨hr, hn⟩ := List.cons.inj hcons
    exact (hpair cs hr hn).elim
  · next hcons =>
    obtain ⟨rfl, rfl⟩ := List.cons.inj hcons
    rw [if_pos h]

/-- A newline behind a text ends its last line, or makes an empty one. A carriage return at the end of
the text makes one break with it. -/
theorem splitLinesFrom_seam (a b line : List Char) :
    splitLinesFrom line (a ++ '\n' :: b) = splitLinesFrom line (a ++ ['\n']) ++ splitLinesFrom [] b ∧
    (splitLinesFrom line (a ++ ['\n']) = splitLinesFrom line a ∨
      splitLinesFrom line (a ++ ['\n']) = splitLinesFrom line a ++ [[]]) := by
  induction line, a using splitLinesFrom.induct with
  | case1 line hline =>
    obtain rfl : line = [] := List.isEmpty_iff.1 hline
    exact ⟨rfl, .inr rfl⟩
  | case2 line hline =>
    have hne : line ≠ [] := fun h => hline (List.isEmpty_iff.2 h)
    refine ⟨rfl, .inl ?_⟩
    rw [splitLinesFrom_nil hne]
    rfl
  | case3 line cs ih =>
    obtain ⟨hsplit, hend⟩ := ih
    refine ⟨congrArg (line.reverse :: ·) hsplit, ?_⟩
    exact hend.imp (congrArg (line.reverse :: ·)) (congrArg (line.reverse :: ·))
  | case4 line c cs hpair hc ih =>
    cases cs with
    | nil =>
      by_cases hr : c = '\r'
      · subst hr
        exact ⟨rfl, .inl rfl⟩
      · have hne : ∀ rest t, c = '\r' → rest = '\n' :: t → False := fun _ _ h _ => hr h
        simp only [List.nil_append, List.cons_append] at *
        rw [splitLinesFrom_break hc (hne _), splitLinesFrom_break hc (hne _), splitLinesFrom_break hc (hne _)]
        exact ⟨rfl, .inr rfl⟩
    | cons d cs =>
      obtain ⟨hsplit, hend⟩ := ih
      have hne : ∀ more t, c = '\r' → d :: (cs ++ more) = '\n' :: t → False := by
        intro more t hr ht
        obtain ⟨rfl, -⟩ := List.cons.inj ht
        exact hpair cs hr rfl
      simp only [List.cons_append] at *
      rw [splitLinesFrom_break hc (hne _), splitLinesFrom_break hc (hne _), splitLinesFrom_break hc hpair]
      refine ⟨congrArg (line.reverse :: ·) hsplit, ?_⟩
      exact hend.imp (congrArg (line.reverse :: ·)) (congrArg (line.reverse :: ·))
  | case5 line c cs hpair hc ih =>
    have hother : isBreak c = false := Bool.eq_false_iff.2 hc
    simp only [List.cons_append]
    rw [splitLinesFrom_cons hother, splitLinesFrom_cons hother, splitLinesFrom_cons hother]
    exact ih

end Text

/-! ## What is told of a line -/

/-- The line is written as a command, but for a number that is too long to be read. -/
def Line.Overlong (line : List Char) : Prop := ∃ p : Phrase, ∃ o, p.Spelled line ∧ p.Refused (.overlong o)

def Complaint.shift (k : Nat) (c : Complaint) : Complaint := { c with line := c.line + k }

def Statement.shift (k : Nat) (s : Statement) : Statement := { s with line := s.line + k }

namespace Script

/-- The text has no line with a number that is too long to be read. -/
def Legible (text : List Char) : Prop := ∀ line ∈ Text.splitLines text, ¬ Line.Overlong line

/-- The complaint about what is wrong with line `number`. What can be read but stands for no command is
wrong from the first column on. -/
def ofError (number : Nat) : Line.Error → Complaint
  | .misread m => ⟨m.message, number, m.column⟩
  | .rejected _ e => ⟨e.message, number, 1⟩

def complaintsOf (number : Nat) (line : List Char) : List Complaint :=
  match Line.read line number with
  | .error e => [ofError number e]
  | .ok _ => []

def statementsOf (number : Nat) (line : List Char) : List Statement :=
  match Line.read line number with
  | .error _ => []
  | .ok s => s.toList

def Reading.complaints : Reading → List Complaint
  | .refused cs => cs
  | _ => []

def Reading.statements? : Reading → Option (List Statement)
  | .accepted ss => some ss
  | _ => none

def Reading.of (statements : List Statement) (complaints : List Complaint) : Reading :=
  if complaints.isEmpty then .accepted statements else .refused complaints

@[simp] theorem complaints_of (ss : List Statement) (cs : List Complaint) :
    (Reading.of ss cs).complaints = cs := by
  cases cs <;> rfl

theorem statements?_of (ss : List Statement) (cs : List Complaint) :
    (Reading.of ss cs).statements? = if cs = [] then some ss else none := by
  cases cs <;> rfl

/-- All that is told of lines from `number` on. -/
def gather {α : Type} (told : Nat → List Char → List α) (number : Nat) (lines : List (List Char)) : List α :=
  (lines.zipIdx number).flatMap fun x => told x.2 x.1

theorem gather_cons {α : Type} (told : Nat → List Char → List α) (number : Nat) (line : List Char)
    (lines : List (List Char)) :
    gather told number (line :: lines) = told number line ++ gather told (number + 1) lines := rfl

/-- A line adds its statement or the complaint about it. -/
theorem readFrom_cons {line : List Char} (h : ¬ Line.Overlong line) (number : Nat)
    (statements : List Statement) (complaints : List Complaint) (lines : List (List Char)) :
    readFrom number statements complaints (line :: lines) =
      readFrom (number + 1) ((statementsOf number line).reverse ++ statements)
        ((complaintsOf number line).reverse ++ complaints) lines := by
  unfold statementsOf complaintsOf
  rw [readFrom]
  cases hline : Line.read line number with
  | ok s => cases s <;> rfl
  | error e =>
    cases e with
    | misread m => rfl
    | rejected p cause =>
      cases cause with
      | fault f => rfl
      | overlong o => exact absurd ⟨p, o, Line.read_eq_rejected.1 hline⟩ h

theorem readFrom_eq_of {lines : List (List Char)} (h : ∀ line ∈ lines, ¬ Line.Overlong line) (number : Nat)
    (statements : List Statement) (complaints : List Complaint) :
    readFrom number statements complaints lines =
      .of (statements.reverse ++ gather statementsOf number lines)
        (complaints.reverse ++ gather complaintsOf number lines) := by
  induction lines generalizing number statements complaints with
  | nil =>
    show (if complaints.isEmpty then _ else _) = Reading.of (statements.reverse ++ []) (complaints.reverse ++ [])
    rw [List.append_nil, List.append_nil, Reading.of, List.isEmpty_reverse]
  | cons line lines ih =>
    rw [List.forall_mem_cons] at h
    rw [readFrom_cons h.1, ih h.2, gather_cons, gather_cons]
    simp only [List.reverse_append, List.reverse_reverse, List.append_assoc]

/-- The result of reading a text is what is told of its lines. -/
theorem read_eq_of {text : List Char} (h : Legible text) :
    read text = .of (gather statementsOf 1 (Text.splitLines text)) (gather complaintsOf 1 (Text.splitLines text)) :=
  readFrom_eq_of h 1 [] []

theorem legible_of_readFrom {lines : List (List Char)} {number : Nat} {statements : List Statement}
    {complaints : List Complaint}
    (h : ∀ p o, readFrom number statements complaints lines ≠ .overlong p o) :
    ∀ line ∈ lines, ¬ Line.Overlong line := by
  induction lines generalizing number statements complaints with
  | nil => exact fun _ hmem => nomatch hmem
  | cons line lines ih =>
    have hline : ¬ Line.Overlong line := by
      rintro ⟨p, o, hp⟩
      apply h p o
      rw [readFrom, Line.read_eq_rejected.2 hp]
    rw [readFrom_cons hline] at h
    exact List.forall_mem_cons.2 ⟨hline, ih h⟩

/-- A text is legible if reading it comes to a result. -/
theorem legible_iff {text : List Char} : Legible text ↔ ∀ p o, read text ≠ .overlong p o := by
  refine ⟨fun h p o heq => ?_, legible_of_readFrom⟩
  rw [read_eq_of h, Reading.of] at heq
  split at heq <;> cases heq

/-! ## Complaints -/

theorem mem_gather_complaintsOf {number : Nat} {lines : List (List Char)} {c : Complaint} :
    c ∈ gather complaintsOf number lines ↔
      ∃ line e, (line, c.line) ∈ lines.zipIdx number ∧ Line.read line c.line = .error e ∧
        c = ofError c.line e := by
  unfold gather
  rw [List.mem_flatMap]
  constructor
  · rintro ⟨⟨line, n⟩, hmem, hc⟩
    unfold complaintsOf at hc
    split at hc
    · next e he =>
      obtain rfl : c = ofError n e := List.mem_singleton.1 hc
      have hn : (ofError n e).line = n := by cases e <;> rfl
      rw [hn]
      exact ⟨line, e, hmem, he, rfl⟩
    · cases hc
  · rintro ⟨line, e, hmem, he, hc⟩
    refine ⟨(line, c.line), hmem, ?_⟩
    unfold complaintsOf
    rw [he]
    exact List.mem_singleton.2 hc

/-- A line that is written as a phrase is not empty. -/
theorem length_pos_of_error {line : List Char} {number : Int} {e : Line.Error}
    (h : Line.read line number = .error e) : 1 ≤ line.length := by
  cases line with
  | nil => cases h
  | cons c cs => exact Nat.succ_pos _

theorem within_ofError {line : List Char} {number : Nat} {e : Line.Error}
    (h : Line.read line number = .error e) : Line.Within line (ofError number e).column := by
  cases e with
  | misread m =>
    have hreports := Phrase.reports_read line
    unfold Line.read at h
    split at h
    · next m' hm =>
      cases h
      rw [hm] at hreports
      exact hreports
    · cases h
    · split at h <;> cases h
  | rejected p cause => exact ⟨Nat.le_refl 1, length_pos_of_error h⟩

/-- Each line has one complaint at most, so the complaints are in the order of the lines. -/
theorem increasing_complaints (number : Nat) (lines : List (List Char)) :
    ((gather complaintsOf number lines).map Complaint.line).Pairwise (· < ·) := by
  induction lines generalizing number with
  | nil => exact List.Pairwise.nil
  | cons line lines ih =>
    rw [gather_cons, complaintsOf]
    cases Line.read line number with
    | ok s => exact ih (number + 1)
    | error e =>
      refine List.pairwise_cons.2 ⟨fun n hn => ?_, ih (number + 1)⟩
      obtain ⟨c, hc, rfl⟩ := List.mem_map.1 hn
      obtain ⟨line', e', hmem, -⟩ := mem_gather_complaintsOf.1 hc
      have hle : number + 1 ≤ c.line := (List.mk_mem_zipIdx_iff_le_and_getElem?_sub.1 hmem).1
      have hline : (ofError number e).line = number := by cases e <;> rfl
      omega

theorem line_of_mem_statementsOf {number : Nat} {line : List Char} {s : Statement}
    (h : s ∈ statementsOf number line) : s.line = number := by
  unfold statementsOf at h
  split at h
  · cases h
  · next o ho =>
    rw [Option.mem_toList] at h
    rw [h] at ho
    exact (Line.read_eq_ok_some.1 ho).1

/-! ## Shifted texts -/

theorem read_shift (line : List Char) (number k : Nat) :
    Line.read line (number + k : Nat) = (Line.read line number).map (Option.map (Statement.shift k)) := by
  unfold Line.read
  cases Phrase.read line with
  | error m => rfl
  | ok o =>
    cases o with
    | none => rfl
    | some p => cases h : p.resolve <;> simp [h, Statement.shift, Except.map]

theorem complaintsOf_shift (number k : Nat) (line : List Char) :
    complaintsOf (number + k) line = (complaintsOf number line).map (Complaint.shift k) := by
  unfold complaintsOf
  rw [read_shift]
  cases Line.read line number with
  | error e => cases e <;> rfl
  | ok o => rfl

theorem statementsOf_shift (number k : Nat) (line : List Char) :
    statementsOf (number + k) line = (statementsOf number line).map (Statement.shift k) := by
  unfold statementsOf
  rw [read_shift]
  cases Line.read line number with
  | error e => rfl
  | ok o => cases o <;> rfl

theorem gather_shift {α : Type} {told : Nat → List Char → List α} {k : Nat} {shift : α → α}
    (h : ∀ number line, told (number + k) line = (told number line).map shift) (number : Nat)
    (lines : List (List Char)) :
    gather told (number + k) lines = (gather told number lines).map shift := by
  induction lines generalizing number with
  | nil => rfl
  | cons line lines ih =>
    rw [gather_cons, gather_cons, List.map_append, h, ← ih, Nat.add_right_comm]

theorem gather_append {α : Type} (told : Nat → List Char → List α) (number : Nat)
    (lines more : List (List Char)) :
    gather told number (lines ++ more) =
      gather told number lines ++ gather told (number + lines.length) more := by
  unfold gather
  rw [List.zipIdx_append, List.flatMap_append]

/-- What is told of two texts with a newline between them. The line that the newline may add to the
first one is blank, so nothing is told of it. -/
theorem gather_seam {α : Type} {told : Nat → List Char → List α} {shift : Nat → α → α}
    (h : ∀ k number line, told (number + k) line = (told number line).map (shift k))
    (hblank : ∀ number, told number [] = []) (a b : List Char) :
    gather told 1 (Text.splitLines (a ++ '\n' :: b)) =
      gather told 1 (Text.splitLines a) ++
        (gather told 1 (Text.splitLines b)).map (shift (Text.splitLines (a ++ ['\n'])).length) := by
  obtain ⟨hsplit, hend⟩ := Text.splitLinesFrom_seam a b []
  have hfirst : gather told 1 (Text.splitLines (a ++ ['\n'])) = gather told 1 (Text.splitLines a) := by
    unfold Text.splitLines
    rcases hend with hend | hend
    · rw [hend]
    · rw [hend, gather_append, gather_cons, hblank]
      exact List.append_nil _
  show gather told 1 (Text.splitLinesFrom [] (a ++ '\n' :: b)) = _
  rw [hsplit, gather_append, gather_shift (h _), ← hfirst]
  rfl

theorem not_overlong_nil : ¬ Line.Overlong [] := by
  rintro ⟨p, o, h⟩
  have hread : Line.read [] 0 = .error (.rejected p (.overlong o)) := Line.read_eq_rejected.2 h
  cases hread

theorem Legible.seam {a b : List Char} (ha : Legible a) (hb : Legible b) : Legible (a ++ '\n' :: b) := by
  obtain ⟨hsplit, hend⟩ := Text.splitLinesFrom_seam a b []
  intro line hline
  rw [Text.splitLines, hsplit, List.mem_append] at hline
  rcases hline with hline | hline
  · rcases hend with hend | hend
    · rw [hend] at hline
      exact ha line hline
    · rw [hend, List.mem_append, List.mem_singleton] at hline
      rcases hline with hline | rfl
      · exact ha line hline
      · exact not_overlong_nil
  · exact hb line hline

/-! ## Whole texts -/

/-- How the result of reading goes with the lines of the text and their numbers. -/
structure Tells (lines : List (List Char × Nat)) (r : Reading) : Prop where
  /-- There is a result. -/
  done : ∀ p o, r ≠ .overlong p o
  /-- No line is reported twice, and the complaints are in the order of the lines. -/
  increasing : (r.complaints.map Complaint.line).Pairwise (· < ·)
  /-- Exactly the bad lines are reported, each for what is wrong with it. -/
  complaint : ∀ c, c ∈ r.complaints ↔ ∃ line e, (line, c.line) ∈ lines ∧
    Line.read line c.line = .error e ∧ c = ofError c.line e
  column : ∀ c ∈ r.complaints, ∃ line, (line, c.line) ∈ lines ∧ Line.Within line c.column
  refused : r.statements? = none ↔ r.complaints ≠ []
  /-- The statements are those of all lines, each with the number of its line. -/
  accepted : ∀ ss, r.statements? = some ss →
    ss = lines.flatMap (fun x => statementsOf x.2 x.1) ∧
    ∀ x ∈ lines, ∀ s ∈ statementsOf x.2 x.1, s.line = x.2

theorem tells_read {text : List Char} (h : Legible text) :
    Tells ((Text.splitLines text).zipIdx 1) (read text) := by
  rw [read_eq_of h]
  refine ⟨?_, ?_, ?_, ?_, ?_, ?_⟩
  · rw [← read_eq_of h]
    exact legible_iff.1 h
  · rw [complaints_of]
    exact increasing_complaints _ _
  · intro c
    rw [complaints_of]
    exact mem_gather_complaintsOf
  · intro c hc
    rw [complaints_of] at hc
    obtain ⟨line, e, hmem, he, hce⟩ := mem_gather_complaintsOf.1 hc
    refine ⟨line, hmem, ?_⟩
    rw [hce]
    exact within_ofError he
  · rw [complaints_of, statements?_of]
    split <;> simp [*]
  · intro ss hss
    rw [statements?_of] at hss
    split at hss
    · cases hss
      exact ⟨rfl, fun x _ s hs => line_of_mem_statementsOf hs⟩
    · cases hss

/-- Reading a text without overlong numbers tells of every line: each bad one is reported once, in order
and with a column inside it, and if there are none the statements of all lines are the result. And a text
that goes on behind a newline is read on its own, but for the numbers of its lines. -/
theorem read_tells :
    (∀ text, Legible text → Tells ((Text.splitLines text).zipIdx 1) (read text)) ∧
    ∀ a b, Legible a → Legible b →
      let k := (Text.splitLines (a ++ ['\n'])).length
      (read (a ++ '\n' :: b)).complaints =
        (read a).complaints ++ (read b).complaints.map (Complaint.shift k) ∧
      ∀ ss ts, (read a).statements? = some ss → (read b).statements? = some ts →
        (read (a ++ '\n' :: b)).statements? = some (ss ++ ts.map (Statement.shift k)) := by
  refine ⟨fun text h => tells_read h, fun a b ha hb => ?_⟩
  have hcomplaints := gather_seam (fun k number => complaintsOf_shift number k) (fun _ => rfl) a b
  have hstatements := gather_seam (fun k number => statementsOf_shift number k) (fun _ => rfl) a b
  rw [read_eq_of ha, read_eq_of hb, read_eq_of (ha.seam hb)]
  simp only [complaints_of, statements?_of]
  refine ⟨hcomplaints, fun ss ts hss hts => ?_⟩
  split at hss
  · next ha' =>
    split at hts
    · next hb' =>
      cases hss
      cases hts
      rw [hcomplaints, ha', hb', hstatements]
      rfl
    · cases hts
  · cases hss

/-- The newline between the texts belongs to the carriage return before it, so the second text starts on
the second line. The number that is missing at its end is reported at the last token. -/
theorem read_tells_seam :
    let a := "mul\r".toList
    let b := "add\u2028push temp // 3".toList
    (read (a ++ '\n' :: b)).complaints.map (fun c => (c.line, c.column)) = [(1, 1), (3, 6)] ∧
    Tells ((Text.splitLines b).zipIdx 1) (read b) := by
  intro a b
  have hlegible : ∀ text, (read text).complaints ≠ [] → Legible text := by
    intro text hne
    refine legible_iff.2 fun p o heq => ?_
    rw [heq] at hne
    exact hne rfl
  have ha : Legible a := hlegible a (by decide)
  have hb : Legible b := hlegible b (by decide)
  have hjoined := congrArg (List.map fun c => (c.line, c.column)) (read_tells.2 a b ha hb).1
  exact ⟨hjoined.trans (by decide), read_tells.1 b hb⟩

end Script

end HackVm
