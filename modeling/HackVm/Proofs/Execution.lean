import HackVm.Machine.Step
import Mathlib.Logic.Function.Basic

/-!
# Running a fragment of code

* `Reaches p s t` : the machine gets from `s` to `t` in finitely many steps;
* `Placed p pc code` : program memory holds the instructions of `code` from address `pc` on
  (`Placed.ofListing`, `Placed.append`);
* `sequence? p code s` : the state after the instructions of `code`, one after the other; where no
  instruction of a placed fragment jumps, the machine reaches it (`Placed.reaches`);
* `compute?_D`, `compute?_M` and their likes : what generated code computes;
* `sequence?_symbol`, `sequence?_assign_D` and their likes : one instruction at a time, with memory
  as `Function.update`.
-/

namespace HackVm.Machine
open Instruction

/-! ## Reachable states -/

def Reaches (p : Program) (s t : State) : Prop := ∃ n, steps? p n s = some t

theorem Reaches.refl (p : Program) (s : State) : Reaches p s s := ⟨0, rfl⟩

theorem Reaches.trans {p : Program} {s t u : State} (h₁ : Reaches p s t) (h₂ : Reaches p t u) :
    Reaches p s u := by
  obtain ⟨m, hm⟩ := h₁
  obtain ⟨n, hn⟩ := h₂
  exact ⟨m + n, by rw [steps?_add, hm, Option.bind_some, hn]⟩

theorem Reaches.step {p : Program} {s t u : State} (h : step? p s = some t) (ht : Reaches p t u) :
    Reaches p s u := by
  obtain ⟨n, hn⟩ := ht
  exact ⟨n + 1, by rw [steps?, h, Option.bind_some, hn]⟩

/-- The machine ends in one state only. -/
theorem Reaches.unique {p : Program} {s t u : State} (ht : Reaches p s t) (hu : Reaches p s u)
    (htend : step? p t = none) (huend : step? p u = none) : t = u := by
  have hlater : ∀ {m n t u}, steps? p m s = some t → steps? p (m + n) s = some u →
      step? p t = none → t = u := by
    intro m n t u hm hn hend
    rw [steps?_add, hm, Option.bind_some] at hn
    cases n with
    | zero => exact Option.some.inj hn
    | succ n =>
      rw [steps?, hend] at hn
      cases hn
  obtain ⟨m, hm⟩ := ht
  obtain ⟨n, hn⟩ := hu
  rcases Nat.le_total m n with h | h
  · obtain ⟨k, rfl⟩ := Nat.exists_eq_add_of_le h
    exact hlater hm hn htend
  · obtain ⟨k, rfl⟩ := Nat.exists_eq_add_of_le h
    exact (hlater hn hm huend).symm

/-! ## Placement -/

/-- Program memory holds the instructions of `code` from address `pc` on. -/
def Placed (p : Program) (pc : Nat) (code : List Instruction) : Prop :=
  code.filter isCode <+: p.instructions.drop pc

theorem length_filter_isCode (code : List Instruction) :
    (code.filter isCode).length = codeSize code := List.countP_eq_length_filter.symm

/-- A fragment of a listing stands behind the code before it. -/
theorem Placed.ofListing (before code after : List Instruction) :
    Placed (Program.ofListing (before ++ code ++ after)) (codeSize before) code := by
  unfold Placed Program.ofListing
  rw [List.filter_append, List.filter_append, List.append_assoc, ← length_filter_isCode,
    List.drop_left]
  exact List.prefix_append _ _

/-- A placed fragment is its two parts, placed one behind the other. -/
theorem Placed.append {p : Program} {pc : Nat} {code more : List Instruction}
    (h : Placed p pc (code ++ more)) : Placed p pc code ∧ Placed p (pc + codeSize code) more := by
  unfold Placed at h ⊢
  rw [List.filter_append] at h
  obtain ⟨rest, hrest⟩ := h
  constructor
  · exact ⟨more.filter isCode ++ rest, by rw [← hrest, List.append_assoc]⟩
  · refine ⟨rest, ?_⟩
    rw [← List.drop_drop, ← hrest, ← length_filter_isCode, List.append_assoc, List.drop_left]

theorem Placed.left {p : Program} {pc : Nat} {code more : List Instruction}
    (h : Placed p pc (code ++ more)) : Placed p pc code := h.append.1

theorem Placed.right {p : Program} {pc : Nat} {code more : List Instruction}
    (h : Placed p pc (code ++ more)) : Placed p (pc + codeSize code) more := h.append.2

/-- The instructions of a placed fragment are in the listing. -/
theorem Placed.mem {code block : List Instruction} {pc : Nat} {i : Instruction}
    (h : Placed (Program.ofListing code) pc block) (hi : i ∈ block) (hcode : i.isCode = true) :
    i ∈ code := by
  have hplaced : i ∈ (Program.ofListing code).instructions.drop pc :=
    List.IsPrefix.mem (List.mem_filter.2 ⟨hi, hcode⟩) h
  exact (List.mem_filter.1 (List.mem_of_mem_drop hplaced)).1

/-- The first instruction of a placed fragment is the one at its address. -/
theorem Placed.step? {p : Program} {s : State} {i : Instruction} {code : List Instruction}
    (h : Placed p s.pc (i :: code)) (hi : i.isCode = true) : step? p s = execute? p i s := by
  obtain ⟨rest, hrest⟩ := h
  have hget : p.instructions[s.pc]? = some i := by
    have h0 : (p.instructions.drop s.pc)[0]? = some i := by
      rw [← hrest, List.filter_cons_of_pos hi]
      rfl
    rwa [List.getElem?_drop, Nat.add_zero] at h0
  rw [Machine.step?, hget]
  rfl

/-! ## Straight code -/

def falls : Instruction → Bool
  | .compute _ _ jump => jump = ""
  | _ => true

theorem pc_of_falls {p : Program} {i : Instruction} {s t : State} (hi : falls i)
    (h : execute? p i s = some t) : t.pc = s.pc + 1 := by
  cases i with
  | address o =>
    obtain ⟨w, -, rfl⟩ := Option.map_eq_some_iff.1 h
    rfl
  | compute comp dest jump =>
    obtain rfl : jump = "" := by simpa [falls] using hi
    obtain ⟨w, -, hw⟩ := Option.bind_eq_some_iff.1 h
    cases hw
    rfl
  | label n => cases h
  | comment c => cases h

/-- The state after the instructions of `code`, one after the other. Labels and comments do
nothing. -/
def sequence? (p : Program) : List Instruction → State → Option State
  | [], s => some s
  | i :: code, s => if i.isCode then (execute? p i s).bind (sequence? p code) else sequence? p code s

@[simp] theorem sequence?_nil (p : Program) (s : State) : sequence? p [] s = some s := rfl

@[simp] theorem sequence?_label (p : Program) (name : String) (code : List Instruction) (s : State) :
    sequence? p (.label name :: code) s = sequence? p code s := rfl

theorem sequence?_cons {p : Program} {i : Instruction} {code : List Instruction} {s : State}
    (hi : i.isCode = true) :
    sequence? p (i :: code) s = (execute? p i s).bind (sequence? p code) := by
  rw [sequence?, if_pos hi]

theorem sequence?_append (p : Program) (code more : List Instruction) (s : State) :
    sequence? p (code ++ more) s = (sequence? p code s).bind (sequence? p more) := by
  induction code generalizing s with
  | nil => rfl
  | cons i code ih =>
    rw [List.cons_append, sequence?, sequence?]
    split
    · cases execute? p i s with
      | none => rfl
      | some t => exact ih t
    · exact ih s

/-- The machine runs through placed code that does not jump. -/
theorem Placed.reaches {p : Program} {code : List Instruction} {s t : State}
    (h : Placed p s.pc code) (hf : code.all falls) (hs : sequence? p code s = some t) :
    Reaches p s t ∧ t.pc = s.pc + codeSize code := by
  induction code generalizing s with
  | nil =>
    obtain rfl : s = t := Option.some.inj hs
    exact ⟨.refl p s, rfl⟩
  | cons i code ih =>
    rw [List.all_cons, Bool.and_eq_true] at hf
    by_cases hi : i.isCode = true
    · rw [sequence?_cons hi] at hs
      obtain ⟨u, hu, hut⟩ := Option.bind_eq_some_iff.1 hs
      have hpc : u.pc = s.pc + 1 := pc_of_falls hf.1 hu
      have hsize : codeSize [i] = 1 := by simp [codeSize, hi]
      have hcode : Placed p u.pc code := by
        rw [hpc, ← hsize]
        exact Placed.right h
      obtain ⟨hr, ht⟩ := ih hcode hf.2 hut
      refine ⟨.step ((h.step? hi).trans hu) hr, ?_⟩
      rw [ht, hpc, codeSize, codeSize, List.countP_cons_of_pos hi]
      omega
    · rw [sequence?, if_neg hi] at hs
      have hcode : Placed p s.pc code := by
        unfold Placed at h ⊢
        rwa [List.filter_cons_of_neg hi] at h
      rw [codeSize, List.countP_cons_of_neg hi]
      exact ih hcode hf.2 hs

/-- The machine runs through placed code up to a jump, which it takes or not. -/
theorem Placed.reaches_jump {p : Program} {code : List Instruction} {comp condition : String}
    {s t : State} {w : Word} {b : Bool} (h : Placed p s.pc (code ++ [jumpIf comp condition]))
    (hf : code.all falls) (hs : sequence? p code s = some t)
    (hw : compute? comp t.a t.d t.m = some w) (hb : taken? condition w = some b) :
    Reaches p s { t with pc := if b then t.a.toNat else t.pc + 1 } := by
  obtain ⟨hr, hpc⟩ := h.left.reaches hf hs
  have hjump : Placed p t.pc [jumpIf comp condition] := by
    rw [hpc]
    exact h.right
  refine hr.trans (.step (t := { t with pc := if b then t.a.toNat else t.pc + 1 }) ?_ (.refl p _))
  rw [hjump.step? rfl, jumpIf, execute?, hw]
  simp only [bind, Option.bind_some, hb]
  rfl

/-! ## Computed words -/

section Computed
variable (a d m : Word)

@[simp] theorem compute?_zero : compute? "0" a d m = some 0#16 := rfl

@[simp] theorem compute?_neg_one : compute? "-1" a d m = some (-1#16) := rfl

@[simp] theorem compute?_D : compute? "D" a d m = some d := rfl

@[simp] theorem compute?_A : compute? "A" a d m = some a := rfl

@[simp] theorem compute?_M : compute? "M" a d m = some m := rfl

@[simp] theorem compute?_M_add_one : compute? "M+1" a d m = some (m + 1#16) := rfl

@[simp] theorem compute?_A_sub_one : compute? "A-1" a d m = some (a - 1#16) := rfl

@[simp] theorem compute?_M_sub_one : compute? "M-1" a d m = some (m - 1#16) := rfl

@[simp] theorem compute?_D_add_A : compute? "D+A" a d m = some (d + a) := rfl

@[simp] theorem compute?_D_sub_A : compute? "D-A" a d m = some (d - a) := rfl

@[simp] theorem compute?_M_sub_D : compute? "M-D" a d m = some (m - d) := rfl

end Computed

/-! ## One instruction at a time -/

section Instructions
variable (p : Program) (code : List Instruction) (a d : Word) (pc : Nat) (ram : Word → Word)

theorem poke_eq_update (cell value : Word) :
    State.poke ⟨a, d, pc, ram⟩ cell value = ⟨a, d, pc, Function.update ram cell value⟩ := by
  unfold State.poke
  congr 1
  funext c
  rw [Function.update_apply]

@[simp] theorem sequence?_address (o : Operand) :
    sequence? p (.address o :: code) ⟨a, d, pc, ram⟩ =
      (p.operand? o).bind fun w => sequence? p code ⟨w, d, pc + 1, ram⟩ := by
  rw [sequence?_cons rfl, execute?, Option.bind_map]
  rfl

@[simp] theorem sequence?_symbol (name : String) :
    sequence? p (symbol name :: code) ⟨a, d, pc, ram⟩ =
      (p.operand? (.symbol name)).bind fun w => sequence? p code ⟨w, d, pc + 1, ram⟩ :=
  sequence?_address ..

@[simp] theorem sequence?_number (n : Int) :
    sequence? p (number n :: code) ⟨a, d, pc, ram⟩ =
      sequence? p code ⟨BitVec.ofInt 16 n, d, pc + 1, ram⟩ :=
  sequence?_address ..

theorem sequence?_assign (dest comp : String) (s : State) :
    sequence? p (assign dest comp :: code) s =
      (compute? comp s.a s.d s.m).bind fun w =>
        sequence? p code { s.store dest w with pc := s.pc + 1 } := by
  rw [sequence?_cons rfl, assign, execute?]
  cases compute? comp s.a s.d s.m <;> rfl

@[simp] theorem sequence?_assign_A (comp : String) :
    sequence? p (assign "A" comp :: code) ⟨a, d, pc, ram⟩ =
      (compute? comp a d (ram a)).bind fun w => sequence? p code ⟨w, d, pc + 1, ram⟩ :=
  sequence?_assign ..

@[simp] theorem sequence?_assign_D (comp : String) :
    sequence? p (assign "D" comp :: code) ⟨a, d, pc, ram⟩ =
      (compute? comp a d (ram a)).bind fun w => sequence? p code ⟨a, w, pc + 1, ram⟩ :=
  sequence?_assign ..

@[simp] theorem sequence?_assign_M (comp : String) :
    sequence? p (assign "M" comp :: code) ⟨a, d, pc, ram⟩ =
      (compute? comp a d (ram a)).bind fun w =>
        sequence? p code ⟨a, d, pc + 1, Function.update ram a w⟩ := by
  rw [sequence?_assign]
  congr 1
  funext w
  congr 1
  exact poke_eq_update a d (pc + 1) ram a w

@[simp] theorem sequence?_assign_AM (comp : String) :
    sequence? p (assign "AM" comp :: code) ⟨a, d, pc, ram⟩ =
      (compute? comp a d (ram a)).bind fun w =>
        sequence? p code ⟨w, d, pc + 1, Function.update ram a w⟩ := by
  rw [sequence?_assign]
  congr 1
  funext w
  congr 1
  exact poke_eq_update w d (pc + 1) ram a w

end Instructions

end HackVm.Machine
