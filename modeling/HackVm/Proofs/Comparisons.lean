import HackVm.Proofs.StackBlocks
import HackVm.Proofs.SymbolTable

/-!
# What a comparison finds

The code of a comparison looks at the sign of the difference of its operands, and the difference is a
word. Two words that lie far apart have a difference of the wrong sign, so for them the code finds the
opposite order.

* `Comparison.Signed` : two integers compare;
* `Near` : the difference of two words, taken as signed integers, is a word;
* `Comparison.holds_iff` : the sign of the difference against the order of the integers;
* `Machine.Compared` : what a comparison leaves in memory;
* `Machine.compare_leaves` : the code of a comparison, in any listing and by itself;
* `Machine.compare_far` : 32767 does not compare as greater than -1.
-/

namespace HackVm
open Machine (Word)

/-! ## Words as signed integers -/

def Comparison.Signed : Comparison → Int → Int → Prop
  | .eq, x, y => x = y
  | .gt, x, y => y < x
  | .lt, x, y => x < y

instance (c : Comparison) (x y : Int) : Decidable (c.Signed x y) :=
  match c with
  | .eq => inferInstanceAs (Decidable (x = y))
  | .gt => inferInstanceAs (Decidable (y < x))
  | .lt => inferInstanceAs (Decidable (x < y))

def Comparison.converse : Comparison → Comparison
  | .eq => .eq
  | .gt => .lt
  | .lt => .gt

/-- The difference of two words, taken as signed integers, is a word. -/
def Near (x y : Word) : Prop := -32768 ≤ x.toInt - y.toInt ∧ x.toInt - y.toInt ≤ 32767

instance (x y : Word) : Decidable (Near x y) := inferInstanceAs (Decidable (_ ∧ _))

theorem toInt_bounds (x : Word) : -32768 ≤ x.toInt ∧ x.toInt ≤ 32767 := by
  have hlow := x.le_toInt
  have hhigh := x.toInt_lt
  norm_num at hlow hhigh
  omega

theorem Near.toInt_sub {x y : Word} (h : Near x y) : (x - y).toInt = x.toInt - y.toInt := by
  obtain ⟨hlow, hhigh⟩ := h
  rw [BitVec.toInt_sub, Int.bmod_eq_of_le] <;> norm_num <;> omega

/-- The difference of words that lie far apart is off by `2 ^ 16`, and so has the wrong sign. -/
theorem toInt_sub_of_far {x y : Word} (h : ¬ Near x y) :
    (x - y).toInt = x.toInt - y.toInt + if y.toInt < x.toInt then -65536 else 65536 := by
  have hx := toInt_bounds x
  have hy := toInt_bounds y
  unfold Near at h
  rw [BitVec.toInt_sub, Int.bmod_def]
  norm_num
  split <;> split <;> omega

/-- The code of a comparison finds the order of its operands if they are near, and else the
opposite order. -/
theorem Comparison.holds_iff (c : Comparison) (x y : Word) :
    c.holds x y = true ↔ (if Near x y then c else c.converse).Signed x.toInt y.toInt := by
  have hx := toInt_bounds x
  have hy := toInt_bounds y
  by_cases h : Near x y
  · rw [if_pos h]
    have hsub := h.toInt_sub
    cases c <;> simp only [holds, Signed, decide_eq_true_eq]
    · exact BitVec.toInt_inj.symm
    · omega
    · omega
  · rw [if_neg h]
    have hsub := toInt_sub_of_far h
    unfold Near at h
    cases c <;> simp only [holds, Signed, converse, decide_eq_true_eq]
    · exact BitVec.toInt_inj.symm
    · split at hsub <;> omega
    · split at hsub <;> omega

/-! ## The code of a comparison -/

namespace Machine
open Instruction StackMachine
open Cell (sp)

/-- What a comparison leaves: one word less on the stack, with `-1` or `0` on top of it, and all else
as it was. -/
structure Compared (c : Comparison) (s t : State) : Prop where
  pointer : (t.ram sp).toNat = (s.ram sp).toNat - 1
  near : Near (second s.ram) (top s.ram) → (top t.ram).toInt =
    if c.Signed (second s.ram).toInt (top s.ram).toInt then -1 else 0
  far : ¬ Near (second s.ram) (top s.ram) → (top t.ram).toInt =
    if c.converse.Signed (second s.ram).toInt (top s.ram).toInt then -1 else 0
  rest : ∀ cell, cell ≠ sp → cell ≠ s.ram sp - 2#16 → t.ram cell = s.ram cell

theorem toInt_apply (c : Comparison) (x y : Word) :
    (c.apply x y).toInt =
      if (if Near x y then c else c.converse).Signed x.toInt y.toInt then -1 else 0 := by
  unfold Comparison.apply
  by_cases h : c.holds x y = true
  · rw [if_pos h, if_pos ((c.holds_iff x y).1 h)]
    rfl
  · rw [if_neg h, if_neg (fun hs => h ((c.holds_iff x y).2 hs))]
    rfl

/-- Alone, the code of a comparison is a listing that can be loaded. -/
theorem loaded_compare (c : Comparison) (ordinal : Option Int) : Loaded (Block.compare c ordinal) := by
  refine ⟨⟨?_, ?_⟩, ?_⟩
  · rw [Emitter.labelNames_compare]
    simpa using Emitter.whenTrue_ne_whenDone ordinal ordinal
  · intro n hn
    rw [Emitter.labelNames_compare, List.mem_cons, List.mem_singleton] at hn
    rcases hn with rfl | rfl
    · exact predefined?_of_dollar (Emitted.dollar_mem_whenTrue ordinal)
    · exact predefined?_of_dollar (Emitted.dollar_mem_whenDone ordinal)
  · show 15 ≤ 32768
    omega

section Block
variable {code before after : List Instruction} {c : Comparison} {ordinal : Option Int} {s : State}

/-- The machine runs through the code of a comparison and comes out at its end. -/
theorem compare_reaches (h : Loaded code) (hc : code = before ++ Block.compare c ordinal ++ after)
    (hpc : s.pc = codeSize before) (hsp : 18 ≤ (s.ram sp).toNat) :
    ∃ t, Reaches (Program.ofListing code) s t ∧ t.pc = s.pc + codeSize (Block.compare c ordinal) ∧
      ∀ cell, t.ram cell = Function.update (popped s.ram) (s.ram sp - 2#16)
        (c.apply (second s.ram) (top s.ram)) cell := by
  have hr : ∀ w ∈ touched s.ram (.operate (.compare c)), AboveRegisters w := by
    have h₁ := toNat_sub_ofNat (w := s.ram sp) (k := 1) (by omega)
    have h₂ := toNat_sub_ofNat (w := s.ram sp) (k := 2) (by omega)
    intro w hw
    simp only [touched, List.mem_cons, List.not_mem_nil, or_false] at hw
    unfold AboveRegisters
    rcases hw with rfl | rfl | rfl <;> omega
  obtain ⟨v, hv, t, hreaches, hend, hram⟩ := compare_carriesOut
    (x := ⟨"", none, s.pc + codeSize (Block.compare c ordinal)⟩) h hc hpc rfl hr
  cases hv
  exact ⟨t, hreaches, hend, fun cell => hram cell List.not_mem_nil⟩

theorem compared_of_ram {t : State} (hsp : 18 ≤ (s.ram sp).toNat)
    (hram : ∀ cell, t.ram cell = Function.update (popped s.ram) (s.ram sp - 2#16)
      (c.apply (second s.ram) (top s.ram)) cell) : Compared c s t := by
  have h₂ := toNat_sub_ofNat (w := s.ram sp) (k := 2) (by omega)
  have hne : sp ≠ s.ram sp - 2#16 := by
    intro h
    rw [← h] at h₂
    have hzero : sp.toNat = 0 := rfl
    omega
  have hpointer : t.ram sp = s.ram sp - 1#16 := by
    rw [hram, Function.update_of_ne hne, popped, Function.update_self]
  have htop : top t.ram = c.apply (second s.ram) (top s.ram) := by
    rw [top, hpointer, sub_one_sub_one, hram, Function.update_self]
  refine ⟨?_, fun h => ?_, fun h => ?_, ?_⟩
  · rw [hpointer, toNat_sub_ofNat (by omega)]
  · rw [htop, toInt_apply, if_pos h]
  · rw [htop, toInt_apply, if_neg h]
  · intro cell hsp hcell
    rw [hram, Function.update_of_ne hcell, popped, Function.update_of_ne hsp]

end Block

/-- The code of a comparison, in any listing that it stands in and by itself: started at its first
instruction with both operands above the registers, the machine comes out at its end, with the result
in place of the operands. For operands that are near, the result tells their order as signed integers;
for others it tells the opposite order. -/
theorem compare_leaves (c : Comparison) (ordinal : Option Int) :
    Loaded (Block.compare c ordinal) ∧
    ∀ (code before after : List Instruction) (s : State), Loaded code →
      code = before ++ Block.compare c ordinal ++ after → s.pc = codeSize before →
      18 ≤ (s.ram sp).toNat →
      ∃ t, Reaches (Program.ofListing code) s t ∧ t.pc = s.pc + codeSize (Block.compare c ordinal) ∧
        Compared c s t := by
  refine ⟨loaded_compare c ordinal, fun code before after s h hc hpc hsp => ?_⟩
  obtain ⟨t, hreaches, hend, hram⟩ := compare_reaches h hc hpc hsp
  exact ⟨t, hreaches, hend, compared_of_ram hsp hram⟩

def operands (x y : Word) : Memory :=
  fun cell => if cell = sp then 258#16 else if cell = 256#16 then x else y

/-- -20000 is less than 12768, as far below it as a word can tell. -/
theorem compare_leaves_lt :
    ∃ t, Reaches (Program.ofListing (Block.compare .lt (some 7)))
        ⟨0, 0, 0, operands (-20000#16) 12768#16⟩ t ∧
      t.pc = 15 ∧ (t.ram sp).toNat = 257 ∧ (top t.ram).toInt = -1 := by
  obtain ⟨hload, hrun⟩ := compare_leaves .lt (some 7)
  obtain ⟨t, hreaches, hend, hcompared⟩ := hrun _ [] [] ⟨0, 0, 0, operands (-20000#16) 12768#16⟩ hload
    (List.append_nil _).symm rfl (by decide)
  exact ⟨t, hreaches, hend, hcompared.pointer, hcompared.near (by decide)⟩

/-- 32767 is greater than -1, but the code that asks for it always ends with `0` on the stack. -/
theorem compare_far :
    (top (operands 32767#16 (-1#16))).toInt < (second (operands 32767#16 (-1#16))).toInt ∧
    (∃ t, Reaches (Program.ofListing (Block.compare .gt (some 0)))
      ⟨0, 0, 0, operands 32767#16 (-1#16)⟩ t ∧ t.pc = 15) ∧
    ∀ t, Reaches (Program.ofListing (Block.compare .gt (some 0)))
      ⟨0, 0, 0, operands 32767#16 (-1#16)⟩ t → t.pc = 15 → (top t.ram).toInt = 0 := by
  have hsplit : Block.compare .gt (some 0) = [] ++ Block.compare .gt (some 0) ++ [] :=
    (List.append_nil _).symm
  obtain ⟨t, hreaches, hend, hram⟩ := compare_reaches
    (s := ⟨0, 0, 0, operands 32767#16 (-1#16)⟩) (loaded_compare .gt (some 0)) hsplit rfl (by decide)
  have hend : t.pc = 15 := hend
  refine ⟨by decide, ⟨t, hreaches, hend⟩, fun u hu hpc => ?_⟩
  have hstop : ∀ v : State, v.pc = 15 →
      step? (Program.ofListing (Block.compare .gt (some 0))) v = none := by
    intro v hv
    unfold step?
    rw [hv]
    rfl
  rw [← hreaches.unique hu (hstop t hend) (hstop u hpc)]
  exact (compared_of_ram (by decide) hram).far (by decide)

end Machine

end HackVm
