import HackVm.Proofs.StackMachine
import Mathlib.Data.List.Basic

/-!
# What operands stand for

* `operand?_SP` and its likes : the predefined symbols that generated code uses stand for their
  cells;
* `predefined?_of_dollar` : a symbol with a dollar is not predefined;
* `Symbolic name` : the symbol is not a numeral, which generated names never are;
* `Loaded code` : the assembler accepts the listing, and it fits into program memory;
* `Loaded.operand?_label` : a label of a loaded listing stands for its address, which is a word;
* `operand?_variable` : a symbol that is neither predefined nor a label stands for the cell that the
  layout gives it;
* `exists_operand?` : every symbol of a listing stands for something.
-/

namespace HackVm.Machine
open Instruction
open StackMachine (Layout)

/-! ## Predefined symbols -/

section Predefined
variable (code : List Instruction)

@[simp] theorem operand?_SP : (Program.ofListing code).operand? (.symbol "SP") = some Cell.sp := rfl

@[simp] theorem operand?_LCL : (Program.ofListing code).operand? (.symbol "LCL") = some Cell.lcl :=
  rfl

@[simp] theorem operand?_ARG : (Program.ofListing code).operand? (.symbol "ARG") = some Cell.arg :=
  rfl

@[simp] theorem operand?_THIS :
    (Program.ofListing code).operand? (.symbol "THIS") = some Cell.this := rfl

@[simp] theorem operand?_THAT :
    (Program.ofListing code).operand? (.symbol "THAT") = some Cell.that := rfl

@[simp] theorem operand?_R13 : (Program.ofListing code).operand? (.symbol "R13") = some Cell.r13 :=
  rfl

@[simp] theorem operand?_R14 : (Program.ofListing code).operand? (.symbol "R14") = some Cell.r14 :=
  rfl

@[simp] theorem operand?_base (b : Base) :
    (Program.ofListing code).operand? (.symbol b.cell) = some b.register := by
  cases b <;> rfl

end Predefined

/-- A symbol with a character that no predefined symbol holds is not predefined. -/
theorem predefined?_of_mem {name : String} {c : Char} (hc : c ∈ name.toList)
    (hpre : ∀ x ∈ predefined, c ∉ x.1.toList) : predefined? name = none := by
  unfold predefined?
  rw [List.lookup_eq_none_iff]
  intro x hx
  refine bne_iff_ne.2 fun h => hpre x hx ?_
  rw [← h]
  exact hc

theorem predefined?_of_dollar {name : String} (h : '$' ∈ name.toList) : predefined? name = none :=
  predefined?_of_mem h (by decide)

/-! ## Symbols that are no numerals -/

def Symbolic (name : String) : Prop := ∃ c ∈ name.toList, Numeral.isDigit c = false

theorem Symbolic.not_numeral {name : String} (h : Symbolic name) :
    ¬ (name ≠ "" ∧ name.toList.all Numeral.isDigit) := by
  obtain ⟨c, hc, hd⟩ := h
  rintro ⟨-, hall⟩
  rw [List.all_eq_true] at hall
  rw [hall c hc] at hd
  cases hd

theorem Symbolic.operand? {name : String} (h : Symbolic name) (code : List Instruction) :
    (Program.ofListing code).operand? (.symbol name) =
      (symbolValue? code name).map (BitVec.ofNat 16) := by
  rw [Program.operand?, if_neg h.not_numeral]
  rfl

theorem Symbolic.loads? {name : String} (h : Symbolic name) :
    loads? (symbol name) = some name := by
  rw [symbol, Machine.loads?, if_neg h.not_numeral]

theorem symbolic_of_mem {name : String} {c : Char} (hc : c ∈ name.toList)
    (hd : Numeral.isDigit c = false) : Symbolic name := ⟨c, hc, hd⟩

theorem symbolic_static (file : String) (index : Int) : Symbolic (Naming.static file index) :=
  symbolic_of_mem (by rw [Naming.static]; simp) (show Numeral.isDigit '.' = false by decide)

theorem symbolic_label (file : String) (function : Option String) (name : String) :
    Symbolic (Naming.label file function name) :=
  symbolic_of_mem (by unfold Naming.label; simp) (show Numeral.isDigit '$' = false by decide)

theorem symbolic_returnTo (function : String) (ordinal : Option Int) :
    Symbolic (Naming.returnTo function ordinal) :=
  symbolic_of_mem (by rw [Naming.returnTo]; simp) (show Numeral.isDigit '$' = false by decide)

theorem symbolic_whenTrue (ordinal : Option Int) : Symbolic (Naming.whenTrue ordinal) :=
  symbolic_of_mem (by rw [Naming.whenTrue]; simp) (show Numeral.isDigit '$' = false by decide)

theorem symbolic_whenDone (ordinal : Option Int) : Symbolic (Naming.whenDone ordinal) :=
  symbolic_of_mem (by rw [Naming.whenDone]; simp) (show Numeral.isDigit '$' = false by decide)

/-! ## Labels -/

theorem labelNames_cons (i : Instruction) (code : List Instruction) :
    labelNames (i :: code) = i.defines.toList ++ labelNames code := by
  unfold labelNames
  rw [List.filterMap_cons]
  cases i.defines <;> rfl

theorem labelAddress?_eq_none {name : String} {code : List Instruction}
    (h : name ∉ labelNames code) : labelAddress? name code = none := by
  induction code with
  | nil => rfl
  | cons i code ih =>
    rw [labelNames_cons, List.mem_append, not_or] at h
    have hi : i ≠ .label name := by
      rintro rfl
      exact h.1 (List.mem_singleton_self name)
    rw [labelAddress?, if_neg hi, ih h.2]
    rfl

theorem mem_labelNames_of_labelAddress? {name : String} {code : List Instruction} {k : Nat}
    (h : labelAddress? name code = some k) : name ∈ labelNames code := by
  by_contra hn
  rw [labelAddress?_eq_none hn] at h
  cases h

theorem labelAddress?_le {name : String} {code : List Instruction} {k : Nat}
    (h : labelAddress? name code = some k) : k ≤ codeSize code := by
  induction code generalizing k with
  | nil => cases h
  | cons i code ih =>
    rw [labelAddress?] at h
    split at h
    · cases h
      exact Nat.zero_le _
    · obtain ⟨j, hj, rfl⟩ := Option.map_eq_some_iff.1 h
      have := ih hj
      rw [codeSize, List.countP_cons]
      unfold codeSize at this
      omega

/-- A listing that the assembler accepts and that fits into program memory. -/
structure Loaded (code : List Instruction) : Prop where
  accepted : Accepted code
  size_le : codeSize code ≤ 32768

/-- A label of a loaded listing stands where it is defined. -/
theorem Loaded.labelAddress? {code before after : List Instruction} {name : String} (h : Loaded code)
    (hc : code = before ++ .label name :: after) :
    Machine.labelAddress? name code = some (codeSize before) := by
  subst hc
  apply labelAddress?_append
  have hnd := h.accepted.1
  rw [labelNames_append, labelNames_cons, List.nodup_append] at hnd
  intro hmem
  exact hnd.2.2 name hmem name (List.mem_append_left _ (List.mem_singleton_self name)) rfl

/-- A label of a loaded listing stands for its address, which fits into a word. -/
theorem Loaded.operand?_label {code : List Instruction} {name : String} {k : Nat} (h : Loaded code)
    (hs : Symbolic name) (hk : Machine.labelAddress? name code = some k) :
    (Program.ofListing code).operand? (.symbol name) = some (BitVec.ofNat 16 k) ∧
      (BitVec.ofNat 16 k).toNat = k := by
  have hpre : predefined? name = none := h.accepted.2 name (mem_labelNames_of_labelAddress? hk)
  constructor
  · rw [hs.operand?, symbolValue?, hpre, hk]
    rfl
  · have := labelAddress?_le hk
    have := h.size_le
    rw [BitVec.toNat_ofNat, Nat.mod_eq_of_lt (by omega)]

/-! ## Variables -/

/-- A symbol that a listing refers to, and that is neither predefined nor a label, stands for the cell
that the layout gives it. -/
theorem operand?_variable {code : List Instruction} {name : String}
    (hs : Symbolic name) (hmem : symbol name ∈ code) (hpre : predefined? name = none)
    (hlabel : name ∉ labelNames code) :
    ∃ w, (Layout.ofListing code).variableAt? name = some w ∧
      (Program.ofListing code).operand? (.symbol name) = some w := by
  have hvar : name ∈ variableNames code := by
    rw [variableNames, List.mem_eraseDups, List.mem_filter]
    refine ⟨List.mem_filterMap.2 ⟨symbol name, hmem, hs.loads?⟩, ?_⟩
    rw [isVariable, hpre]
    simpa using hlabel
  obtain ⟨k, hk⟩ := Option.isSome_iff_exists.1 (List.isSome_idxOf?.2 hvar)
  refine ⟨BitVec.ofNat 16 (firstVariable + k), ?_, ?_⟩
  · simp only [Layout.ofListing, hk, Option.map_some]
  · rw [hs.operand?, symbolValue?, hpre, labelAddress?_eq_none hlabel, hk]
    rfl

/-- A symbol that a listing refers to stands for something. -/
theorem exists_operand? {code : List Instruction} {name : String} (hs : Symbolic name)
    (hmem : symbol name ∈ code) :
    ∃ w, (Program.ofListing code).operand? (.symbol name) = some w := by
  cases hpre : predefined? name with
  | some k => exact ⟨_, by rw [hs.operand?, symbolValue?, hpre]; rfl⟩
  | none =>
    by_cases hlabel : name ∈ labelNames code
    · obtain ⟨k, hk⟩ := Option.isSome_iff_exists.1 (labelAddress?_isSome hlabel)
      exact ⟨_, by rw [hs.operand?, symbolValue?, hpre, hk]; rfl⟩
    · obtain ⟨w, -, hw⟩ := operand?_variable hs hmem hpre hlabel
      exact ⟨w, hw⟩

end HackVm.Machine
