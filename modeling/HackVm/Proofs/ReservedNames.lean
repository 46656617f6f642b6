import HackVm.Line.Phrase
import HackVm.Proofs.Layout
import HackVm.Proofs.Operands

/-!
# Labels with reserved names

The assembler reserves the names of the cells that it predefines. All labels but those of functions
hold a dollar, which no reserved name does. A function is entered under its own name, whatever it is, so
the labels with reserved names are those of the functions that have them.

* `Emitter.mem_labelNames_iff_entered` : such a label is the entry of a function;
* `Emitter.accepted_after_iff` : the assembler accepts every listing in which no function has a reserved
  name, and then all reserved names stand for their cells;
* `Emitter.entered_stackPointer` : a function that takes the name of the stack pointer.
-/

namespace HackVm.Emitter
open Machine

variable {options : Options} {orders : List Order}

theorem dollar_not_mem_of_predefined {n : String} (h : predefined? n ≠ none) : '$' ∉ n.toList :=
  fun hdollar => h (predefined?_of_dollar hdollar)

/-- A label with a reserved name is the entry of a function. -/
theorem mem_labelNames_iff_entered {n : String} (h : predefined? n ≠ none) :
    n ∈ labelNames (({ options := options } : Emitter).after orders).listing.toList ↔
      ({ options := options } : Emitter).Entered orders n := by
  have hkept : Kept options (({ options := options } : Emitter).after orders) _ :=
    (Kept.fresh options).after orders
  rw [← hkept.labels, mem_labels_iff_entered (dollar_not_mem_of_predefined h)]

/-- No label has a reserved name unless a function does. -/
theorem predefined?_of_mem_labelNames
    (h : ∀ n, ({ options := options } : Emitter).Entered orders n → predefined? n = none) :
    ∀ n ∈ labelNames (({ options := options } : Emitter).after orders).listing.toList,
      predefined? n = none := by
  intro n hn
  by_contra hpre
  exact hpre (h n ((mem_labelNames_iff_entered hpre).1 hn))

/-- In an accepted listing no label competes with the cell of a reserved name. -/
theorem symbolValue?_of_accepted {code : List Instruction} (h : Accepted code) {n : String} {cell : Nat}
    (hn : predefined? n = some cell) :
    labelAddress? n code = none ∧ symbolValue? code n = some cell := by
  constructor
  · refine labelAddress?_eq_none fun hmem => ?_
    rw [h.2 n hmem] at hn
    cases hn
  · rw [symbolValue?, hn]
    rfl

/-- The labels with reserved names in the listing of a run are the functions with such names that were
carried out in it. If there are none, the assembler accepts the listing, and a reserved name in it
stands for its cell and for nothing else. -/
theorem accepted_after_iff (options : Options) (orders : List Order) :
    let e₀ : Emitter := { options := options }
    let code := (e₀.after orders).listing.toList
    (∀ n, predefined? n ≠ none → (n ∈ labelNames code ↔ e₀.Entered orders n)) ∧
    (Accepted code ↔ ∀ n, e₀.Entered orders n → predefined? n = none) ∧
    (Accepted code → ∀ n cell, predefined? n = some cell →
      labelAddress? n code = none ∧ symbolValue? code n = some cell) := by
  intro e₀ code
  refine ⟨fun n hn => mem_labelNames_iff_entered hn, ⟨?_, ?_⟩, ?_⟩
  · intro hcode n hn
    by_contra hpre
    exact hpre (hcode.2 n ((mem_labelNames_iff_entered hpre).2 hn))
  · intro hnames
    exact ⟨((Kept.fresh options).after orders).nodup, predefined?_of_mem_labelNames hnames⟩
  · intro hcode n cell hn
    exact symbolValue?_of_accepted hcode hn

def stackPointerLabel : List Order :=
  [.enter "Main", .command (.function "Main.main" 0), .command (.label "SP"), .command (.goto "SP")]

theorem accepted_after_iff_label :
    Accepted (({} : Emitter).after stackPointerLabel).listing.toList ∧
    symbolValue? (({} : Emitter).after stackPointerLabel).listing.toList "SP" = some 0 := by
  obtain ⟨-, haccepted, hcells⟩ := accepted_after_iff {} stackPointerLabel
  have hcode : Accepted (({} : Emitter).after stackPointerLabel).listing.toList := by
    refine haccepted.2 ?_
    rintro n ⟨e, k, o, hmeets, ho, -⟩
    have hmem := hmeets.mem
    simp only [stackPointerLabel, List.mem_cons, List.not_mem_nil, or_false] at hmem
    rcases hmem with rfl | rfl | rfl | rfl <;> cases ho
    rfl
  exact ⟨hcode, (hcells hcode "SP" 0 rfl).2⟩

def stackPointerFunction : List Order := [.enter "Main", .command (.function "SP" 0)]

/-- The line of the function can be read, and all orders are carried out, but the listing defines the
name of the stack pointer as a label and the assembler refuses it. -/
theorem entered_stackPointer :
    Line.read "function SP 0".toList 1 = .ok (some ⟨1, .function "SP" 0⟩) ∧
    ({} : Emitter).Completes stackPointerFunction ∧
    predefined? "SP" = some 0 ∧
    "SP" ∈ labelNames (({} : Emitter).after stackPointerFunction).listing.toList ∧
    ¬ Accepted (({} : Emitter).after stackPointerFunction).listing.toList := by
  refine ⟨by decide, ?_, rfl, by decide, by decide⟩
  exact completes_cons.2 ⟨rfl, completes_cons.2 ⟨rfl, completes_nil _⟩⟩

end HackVm.Emitter
