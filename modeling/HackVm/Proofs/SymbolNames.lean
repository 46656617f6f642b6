import HackVm.Naming
import HackVm.Proofs.Numerals

/-!
# Which symbols are alike

All symbols of a listing share one set of names. Those of functions and of static variables are built
without a dollar, all others with one behind the function or the file that they belong to. As long as
the names they are built from hold no dollar themselves, a symbol can be taken apart again.

* `Naming.numbered_eq_iff` : what ends in a number behind a mark tells both, whatever stands before them;
* `Naming.static_eq_iff`, `Naming.returnTo_eq_iff` : so a static symbol tells its file and a return label
  its function, also if these are called like other symbols;
* `Naming.symbols_apart` : the labels of comparisons are different from both;
* `Naming.scope` : the function or the file that a label is local to;
* `Label` : a label by what it names; `Label.text` is its symbol, and `Label.parts` what stands before
  and behind its dollar;
* `Label.Rooted` : when the parts can be told from the symbol;
* `MadeUp` : the names of labels that are made up for calls and comparisons;
* `Label.text_injective` : different labels have different symbols.
-/

namespace HackVm

namespace Naming

def scope (file : String) : Option String → String
  | some f => if f = "" then file else f
  | none => file

theorem label_eq (file : String) (function : Option String) (name : String) :
    label file function name = scope file function ++ "$" ++ name := by
  cases function <;> rfl

theorem whenTrue_injective {m n : Int} (h : whenTrue (some m) = whenTrue (some n)) : m = n :=
  Numeral.text_injective ((String.append_right_inj _).1 h)

theorem returnTo_injective {f : String} {m n : Int} (h : returnTo f (some m) = returnTo f (some n)) :
    m = n :=
  Numeral.text_injective ((String.append_right_inj _).1 h)

def isNumeral (c : Char) : Bool := Numeral.isDigit c || c == '-'

/-- A symbol that ends in a number, behind the character `mark`. -/
def numbered (stem : String) (mark : Char) (i : Int) : String :=
  stem ++ String.singleton mark ++ Numeral.text i

theorem isNumeral_of_mem_text {i : Int} {c : Char} (h : c ∈ (Numeral.text i).toList) :
    isNumeral c = true := by
  simpa [isNumeral] using Numeral.isDigit_or_minus_of_mem_text h

theorem reverse_numbered (stem : String) (mark : Char) (i : Int) :
    (numbered stem mark i).toList.reverse =
      (Numeral.text i).toList.reverse ++ mark :: stem.toList.reverse := by
  simp [numbered]

/-- Whatever a symbol starts with, its mark and its number can be told from its end. -/
theorem numbered_eq_iff {s t : String} {c d : Char} {i j : Int} (hc : isNumeral c = false)
    (hd : isNumeral d = false) : numbered s c i = numbered t d j ↔ s = t ∧ c = d ∧ i = j := by
  constructor
  · intro h
    have hnumeral : ∀ k : Int, ∀ a ∈ (Numeral.text k).toList.reverse, isNumeral a = true :=
      fun k a ha => isNumeral_of_mem_text (List.mem_reverse.1 ha)
    -- Read backwards, the number is the longest run of its characters, and the mark ends the run.
    have hrev := congrArg (fun n : String => n.toList.reverse) h
    simp only [reverse_numbered] at hrev
    have htext := congrArg (List.takeWhile isNumeral) hrev
    have hrest := congrArg (List.dropWhile isNumeral) hrev
    rw [List.takeWhile_append_of_pos (hnumeral i), List.takeWhile_append_of_pos (hnumeral j),
      List.takeWhile_cons_of_neg (by simp [hc]), List.takeWhile_cons_of_neg (by simp [hd])] at htext
    rw [List.dropWhile_append_of_pos (hnumeral i), List.dropWhile_append_of_pos (hnumeral j),
      List.dropWhile_cons_of_neg (by simp [hc]), List.dropWhile_cons_of_neg (by simp [hd])] at hrest
    obtain ⟨hmark, hstem⟩ := List.cons.inj hrest
    refine ⟨?_, hmark, ?_⟩
    · exact String.toList_injective (List.reverse_inj.1 hstem)
    · apply Numeral.text_injective
      apply String.toList_injective
      simpa using htext
  · rintro ⟨rfl, rfl, rfl⟩
    rfl

theorem static_eq_numbered (file : String) (i : Int) : static file i = numbered file '.' i := rfl

theorem returnTo_eq_numbered (f : String) (i : Int) :
    returnTo f (some i) = numbered (f ++ "$ret") '.' i := by
  simp [returnTo, numbered, ordinalText, ← String.toList_inj]

theorem whenTrue_eq_numbered (i : Int) : whenTrue (some i) = numbered "CMP$TRUE" '$' i := by
  simp [whenTrue, numbered, ordinalText]

theorem whenDone_eq_numbered (i : Int) : whenDone (some i) = numbered "CMP$END" '$' i := by
  simp [whenDone, numbered, ordinalText]

theorem static_eq_iff {f g : String} {i j : Int} : static f i = static g j ↔ f = g ∧ i = j := by
  rw [static_eq_numbered, static_eq_numbered, numbered_eq_iff (by decide) (by decide)]
  simp

theorem returnTo_eq_iff {f g : String} {i j : Int} :
    returnTo f (some i) = returnTo g (some j) ↔ f = g ∧ i = j := by
  rw [returnTo_eq_numbered, returnTo_eq_numbered, numbered_eq_iff (by decide) (by decide),
    String.append_left_inj]
  simp

def ofComparison (i : Int) : List String := [whenTrue (some i), whenDone (some i)]

theorem eq_numbered_of_mem_ofComparison {i : Int} {n : String} (h : n ∈ ofComparison i) :
    ∃ stem, n = numbered stem '$' i := by
  simp only [ofComparison, List.mem_cons, List.not_mem_nil, or_false] at h
  rcases h with rfl | rfl
  · exact ⟨_, whenTrue_eq_numbered i⟩
  · exact ⟨_, whenDone_eq_numbered i⟩

theorem nodup_ofComparison (i : Int) : (ofComparison i).Nodup := by
  have hne : whenTrue (some i) ≠ whenDone (some i) := by
    rw [whenTrue_eq_numbered, whenDone_eq_numbered]
    intro h
    exact absurd ((numbered_eq_iff (by decide) (by decide)).1 h).1 (by decide)
  simp [ofComparison, hne]

theorem ordinal_of_mem_ofComparison {i j : Int} {n : String} (hi : n ∈ ofComparison i)
    (hj : n ∈ ofComparison j) : i = j := by
  obtain ⟨s, rfl⟩ := eq_numbered_of_mem_ofComparison hi
  obtain ⟨t, heq⟩ := eq_numbered_of_mem_ofComparison hj
  exact ((numbered_eq_iff (by decide) (by decide)).1 heq).2.2

/-- The number of a comparison never stands behind a dot. -/
theorem dotted_not_mem_ofComparison (stem : String) (i j : Int) : numbered stem '.' j ∉ ofComparison i := by
  intro h
  obtain ⟨s, heq⟩ := eq_numbered_of_mem_ofComparison h
  exact absurd ((numbered_eq_iff (by decide) (by decide)).1 heq).2.1 (by decide)

/-- Static symbols and return labels tell what they are built from, whatever files and functions are
called. The labels of a comparison are two, they are those of no other comparison, and none of them is a
static symbol or a return label. -/
theorem symbols_apart (f g : String) (i j : Int) :
    (static f i = static g j ↔ f = g ∧ i = j) ∧
    (returnTo f (some i) = returnTo g (some j) ↔ f = g ∧ i = j) ∧
    ((∃ n, n ∈ ofComparison i ∧ n ∈ ofComparison j) ↔ i = j) ∧
    (ofComparison i).Nodup ∧
    static f j ∉ ofComparison i ∧ returnTo f (some j) ∉ ofComparison i := by
  refine ⟨static_eq_iff, returnTo_eq_iff, ⟨?_, ?_⟩, nodup_ofComparison i, ?_, ?_⟩
  · rintro ⟨n, hi, hj⟩
    exact ordinal_of_mem_ofComparison hi hj
  · rintro rfl
    exact ⟨whenTrue (some i), List.mem_cons_self, List.mem_cons_self⟩
  · rw [static_eq_numbered]
    exact dotted_not_mem_ofComparison f i j
  · rw [returnTo_eq_numbered]
    exact dotted_not_mem_ofComparison (f ++ "$ret") i j

/-! ## Scopes -/

/-- What stands behind a scope in a symbol. -/
def tail : Option String → String
  | some name => "$" ++ name
  | none => ""

theorem takeWhile_tail (x : Option String) : (tail x).toList.takeWhile (· != '$') = [] := by
  cases x <;> simp [tail]

theorem takeWhile_scope {a : String} (h : '$' ∉ a.toList) (x : Option String) :
    (a ++ tail x).toList.takeWhile (· != '$') = a.toList := by
  rw [String.toList_append, List.takeWhile_append_of_pos, takeWhile_tail, List.append_nil]
  intro c hc
  rw [bne_iff_ne]
  rintro rfl
  exact h hc

theorem tail_injective {x y : Option String} (h : tail x = tail y) : x = y := by
  cases x with
  | none =>
    cases y with
    | none => rfl
    | some n => simp [tail] at h
  | some m =>
    cases y with
    | none => simp [tail] at h
    | some n => exact congrArg some ((String.append_right_inj _).1 h)

/-- A scope without a dollar ends where the first dollar of a symbol stands. -/
theorem append_tail_injective {a b : String} {x y : Option String} (ha : '$' ∉ a.toList)
    (hb : '$' ∉ b.toList) (h : a ++ tail x = b ++ tail y) : a = b ∧ x = y := by
  have hab : a = b := by
    rw [← String.toList_inj, ← takeWhile_scope ha x, h, takeWhile_scope hb y]
  subst hab
  exact ⟨rfl, tail_injective ((String.append_right_inj _).1 h)⟩

end Naming

/-! ## Labels -/

/-- The labels of a listing, by what they name. -/
inductive Label where
  | entry (function : String)
  /-- A label of the program, in a function or a file. -/
  | branch (scope name : String)
  | returnTo (function : String) (ordinal : Nat)
  | whenTrue (ordinal : Nat)
  | whenDone (ordinal : Nat)

/-- The name of a label that is made up for a call or a comparison. -/
def MadeUp (name : String) : Prop :=
  ∃ k : Nat, name = "ret." ++ Numeral.text k ∨ name = "TRUE$" ++ Numeral.text k ∨
    name = "END$" ++ Numeral.text k

theorem not_madeUp {name : String} (h : '$' ∉ name.toList)
    (hret : ∀ k : Nat, name ≠ "ret." ++ Numeral.text k) : ¬ MadeUp name := by
  rintro ⟨k, rfl | rfl | rfl⟩
  · exact hret k rfl
  · simp at h
  · simp at h

theorem ne_returnName {name : String} (h : ¬ "ret.".toList <+: name.toList) (k : Nat) :
    name ≠ "ret." ++ Numeral.text k := by
  rintro rfl
  rw [String.toList_append] at h
  exact h (List.prefix_append _ _)

namespace Label

def text : Label → String
  | .entry f => f
  | .branch s n => s ++ "$" ++ n
  | .returnTo f k => Naming.returnTo f (some k)
  | .whenTrue k => Naming.whenTrue (some k)
  | .whenDone k => Naming.whenDone (some k)

/-- The scope of a label, and its name in that scope unless it is a function. -/
def parts : Label → String × Option String
  | .entry f => (f, none)
  | .branch s n => (s, some n)
  | .returnTo f k => (f, some ("ret." ++ Numeral.text k))
  | .whenTrue k => ("CMP", some ("TRUE$" ++ Numeral.text k))
  | .whenDone k => ("CMP", some ("END$" ++ Numeral.text k))

theorem text_eq_parts (l : Label) : l.text = l.parts.1 ++ Naming.tail l.parts.2 := by
  cases l with
  | entry f => exact String.append_empty.symm
  | branch s n => exact String.append_assoc
  | returnTo f k => simp [text, parts, Naming.tail, Naming.returnTo, Naming.ordinalText, ← String.toList_inj]
  | whenTrue k => simp [text, parts, Naming.tail, Naming.whenTrue, Naming.ordinalText, ← String.toList_inj]
  | whenDone k => simp [text, parts, Naming.tail, Naming.whenDone, Naming.ordinalText, ← String.toList_inj]

def Rooted (l : Label) : Prop := '$' ∉ l.parts.1.toList

/-- If the label is one of the program, its name is not like one made up. -/
def Own : Label → Prop
  | .branch _ n => ¬ MadeUp n
  | _ => True

theorem parts_eq {l l' : Label} (h : l.Rooted) (h' : l'.Rooted) (heq : l.text = l'.text) :
    l.parts = l'.parts := by
  rw [text_eq_parts, text_eq_parts] at heq
  exact Prod.ext_iff.2 (Naming.append_tail_injective h h' heq)

theorem dollar_mem_text {l : Label} {n : String} (h : l.parts.2 = some n) : '$' ∈ l.text.toList := by
  rw [text_eq_parts, h]
  simp [Naming.tail]

/-- A symbol without a dollar is a function's. -/
theorem eq_entry_of_text {l : Label} {n : String} (h : l.text = n) (hn : '$' ∉ n.toList) :
    l = .entry n := by
  subst h
  cases l with
  | entry f => rfl
  | _ => exact absurd (dollar_mem_text rfl) hn

/-- A label whose name is not made up shares its parts with no other label. -/
theorem eq_branch_of_parts {s n : String} {l : Label} (h : l.parts = (s, some n)) (hn : ¬ MadeUp n) :
    l = .branch s n := by
  cases l with
  | entry f => cases h
  | branch s' n' => cases h; rfl
  | returnTo f k => exact absurd ⟨k, .inl (Option.some.inj (Prod.mk.inj h).2).symm⟩ hn
  | whenTrue k => exact absurd ⟨k, .inr (.inl (Option.some.inj (Prod.mk.inj h).2).symm)⟩ hn
  | whenDone k => exact absurd ⟨k, .inr (.inr (Option.some.inj (Prod.mk.inj h).2).symm)⟩ hn

/-- The names made up for calls and comparisons are all different. -/
theorem made_ne (s t : String) :
    "ret." ++ s ≠ "TRUE$" ++ t ∧ "ret." ++ s ≠ "END$" ++ t ∧ "TRUE$" ++ s ≠ "END$" ++ t := by
  refine ⟨?_, ?_, ?_⟩ <;> intro h <;> simp [← String.toList_inj] at h

theorem number_eq {s : String} {m n : Nat} (h : s ++ Numeral.text m = s ++ Numeral.text n) : m = n :=
  Numeral.text_natCast_injective ((String.append_right_inj s).1 h)

theorem text_injective {l l' : Label} (h : l.Rooted) (h' : l'.Rooted) (hown : l.Own) (hown' : l'.Own)
    (heq : l.text = l'.text) : l = l' := by
  have hparts := parts_eq h h' heq
  cases l' with
  | branch s n => exact eq_branch_of_parts hparts hown'
  | entry f =>
    cases l with
    | entry f' => cases hparts; rfl
    | _ => cases hparts
  | returnTo f k =>
    cases l with
    | entry f' => cases hparts
    | branch s n => exact (eq_branch_of_parts hparts.symm hown).symm
    | returnTo f' k' =>
      obtain ⟨rfl, hname⟩ := Prod.mk.inj hparts
      rw [number_eq (Option.some.inj hname)]
    | whenTrue k' => exact absurd (Option.some.inj (Prod.mk.inj hparts).2).symm (made_ne _ _).1
    | whenDone k' => exact absurd (Option.some.inj (Prod.mk.inj hparts).2).symm (made_ne _ _).2.1
  | whenTrue k =>
    cases l with
    | entry f' => cases hparts
    | branch s n => exact (eq_branch_of_parts hparts.symm hown).symm
    | returnTo f' k' => exact absurd (Option.some.inj (Prod.mk.inj hparts).2) (made_ne _ _).1
    | whenTrue k' => rw [number_eq (Option.some.inj (Prod.mk.inj hparts).2)]
    | whenDone k' => exact absurd (Option.some.inj (Prod.mk.inj hparts).2).symm (made_ne _ _).2.2
  | whenDone k =>
    cases l with
    | entry f' => cases hparts
    | branch s n => exact (eq_branch_of_parts hparts.symm hown).symm
    | returnTo f' k' => exact absurd (Option.some.inj (Prod.mk.inj hparts).2) (made_ne _ _).2.1
    | whenTrue k' => exact absurd (Option.some.inj (Prod.mk.inj hparts).2) (made_ne _ _).2.2
    | whenDone k' => rw [number_eq (Option.some.inj (Prod.mk.inj hparts).2)]

end Label

end HackVm
