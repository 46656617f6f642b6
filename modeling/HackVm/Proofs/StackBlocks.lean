import HackVm.Proofs.Execution
import HackVm.Proofs.Operands
import HackVm.Proofs.Outcome

/-!
# The code of stack commands does what they say

* `Simulates code s v S` : the machine, started in `s` on the program of the listing `code`, gets
  to the configuration `v`, apart from the cells in `S`;
* `CarriesOut code x s c` : it gets to where the stack machine gets by the command `c`;
* `push_simulates`, `pop_simulates` : a word between the stack and a cell of a segment, wherever the
  cell is;
* `push_carriesOut`, `pop_carriesOut` : the same as commands;
* `unary_carriesOut`, `binary_carriesOut`, `compare_carriesOut` : the operators.

Each is about a block that is placed somewhere in a loaded listing. Where a block is straight, its
effect is first computed as an equation about `sequence?`.
-/

namespace HackVm.Machine
open Instruction Block StackMachine
open Cell (sp lcl arg r13 r14)

theorem sub_one_sub_one (w : Word) : w - 1#16 - 1#16 = w - 2#16 := sub_sub w 1#16 1#16

theorem toNat_sub_ofNat {w : Word} {k : Nat} (h : k ≤ w.toNat) :
    (w - BitVec.ofNat 16 k).toNat = w.toNat - k := by
  have hw := w.isLt
  rw [BitVec.toNat_sub, BitVec.toNat_ofNat]
  omega

/-! ## Reaching a configuration -/

/-- The machine gets from `s` to a state with the address and the memory of `v`, apart from the
cells in `S`. -/
def Simulates (code : List Instruction) (s : State) (v : Config) (S : List Word) : Prop :=
  ∃ t, Reaches (Program.ofListing code) s t ∧ t.pc = v.pc ∧ ∀ c ∉ S, t.ram c = v.memory c

/-- Straight code simulates the memory that it computes. -/
theorem Placed.simulates {code block : List Instruction} {s t : State} {m : Memory} {S : List Word}
    {next : Nat} (h : Placed (Program.ofListing code) s.pc block) (hf : block.all falls)
    (hs : sequence? (Program.ofListing code) block s = some t) (hn : next = s.pc + codeSize block)
    (hm : ∀ c ∉ S, t.ram c = m c) : Simulates code s ⟨next, m⟩ S := by
  obtain ⟨hr, hpc⟩ := h.reaches hf hs
  exact ⟨t, hr, hpc.trans hn.symm, hm⟩

/-- The machine gets from `s` to where the stack machine gets by the command `c`, apart from the cells
that the code of `c` uses for itself. -/
def CarriesOut (code : List Instruction) (x : Site) (s : State) (c : Command) : Prop :=
  ∃ v, StackMachine.step? (Layout.ofListing code) x s.ram c = some v ∧ Simulates code s v (scratch c)

/-! ## The top of the stack -/

section Straight
variable (code : List Instruction) (a d : Word) (pc : Nat) (ram : Memory)

theorem sequence?_pushD (h : ram sp ≠ sp) :
    sequence? (Program.ofListing code) pushD ⟨a, d, pc, ram⟩ =
      some ⟨sp, d, pc + 5, pushed ram d⟩ := by
  simp [pushD, pushed, Function.update_of_ne h.symm]

theorem sequence?_popD (h : ram sp - 1#16 ≠ sp) :
    sequence? (Program.ofListing code) popD ⟨a, d, pc, ram⟩ =
      some ⟨ram sp - 1#16, top ram, pc + 3, popped ram⟩ := by
  simp [popD, popped, top, Function.update_of_ne h]

end Straight

/-! ## Segments -/

theorem fixedCell_eq_ok {segment : Segment} {base last : Nat} {index n : Int}
    (h : fixedCell segment base last index = .ok n) :
    (0 ≤ index ∧ index ≤ last) ∧ n = base + index := by
  unfold fixedCell at h
  split at h
  · next hi => exact ⟨hi, (Except.ok.inj h).symm⟩
  · split at h <;> cases h

/-- The symbol of a static variable stands for the cell that the layout gives it. -/
def StaticAt (code : List Instruction) (file : String) (index : Int) : Prop :=
  ∃ w, (Layout.ofListing code).variableAt? (Naming.static file index) = some w ∧
    (Program.ofListing code).operand? (.symbol (Naming.static file index)) = some w

/-- Loading a cell of a segment puts its word into the data register. -/
theorem sequence?_load {code block : List Instruction} {l : Layout} {x : Site} {segment : Segment}
    {index : Int} (hb : load segment index x.file = .ok block)
    (hs : segment = .static → ∃ w, l.variableAt? (Naming.static x.file index) = some w ∧
      (Program.ofListing code).operand? (.symbol (Naming.static x.file index)) = some w)
    (a d : Word) (pc : Nat) (ram : Memory) :
    ∃ a' w pc', word? l x ram segment index = some w ∧ block.all falls ∧
      sequence? (Program.ofListing code) block ⟨a, d, pc, ram⟩ = some ⟨a', w, pc', ram⟩ := by
  cases segment with
  | constant =>
    cases hb
    exact ⟨_, _, _, rfl, rfl, rfl⟩
  | based b =>
    cases hb
    cases b <;> exact ⟨_, _, _, rfl, rfl, rfl⟩
  | pointer =>
    obtain ⟨n, hn, hb⟩ := bind_eq_ok.1 hb
    cases hb
    obtain ⟨hi, rfl⟩ : (0 ≤ index ∧ index ≤ 1) ∧ n = 3 + index := fixedCell_eq_ok hn
    refine ⟨_, _, _, ?_, rfl, rfl⟩
    simp only [word?, cell?, if_pos hi, Option.map_some]
    rfl
  | temp =>
    obtain ⟨n, hn, hb⟩ := bind_eq_ok.1 hb
    cases hb
    obtain ⟨hi, rfl⟩ : (0 ≤ index ∧ index ≤ 7) ∧ n = 5 + index := fixedCell_eq_ok hn
    refine ⟨_, _, _, ?_, rfl, rfl⟩
    simp only [word?, cell?, if_pos hi, Option.map_some]
    rfl
  | static =>
    obtain ⟨name, hname, hb⟩ := bind_eq_ok.1 hb
    obtain ⟨-, rfl⟩ := staticCell_eq_ok.1 hname
    cases hb
    obtain ⟨w, hw, ho⟩ := hs rfl
    refine ⟨w, ram w, pc + 2, ?_, rfl, ?_⟩
    · simp only [word?, cell?, hw, Option.map_some]
    · rw [sequence?_symbol, ho]
      rfl

/-- The code of `push` puts a word of a segment on the stack, wherever the stack is. -/
theorem push_simulates {code block : List Instruction} {l : Layout} {x : Site} {s : State}
    {segment : Segment} {index : Int} (hb : push segment index x.file = .ok block)
    (h : Placed (Program.ofListing code) s.pc block) (hsp : s.ram sp ≠ sp)
    (hs : segment = .static → ∃ w, l.variableAt? (Naming.static x.file index) = some w ∧
      (Program.ofListing code).operand? (.symbol (Naming.static x.file index)) = some w) :
    ∃ w, word? l x s.ram segment index = some w ∧
      Simulates code s ⟨s.pc + codeSize block, pushed s.ram w⟩ [] := by
  obtain ⟨a, d, pc, ram⟩ := s
  obtain ⟨loading, hl, hb⟩ := bind_eq_ok.1 hb
  cases hb
  obtain ⟨a', w, pc', hw, hf, hq⟩ := sequence?_load hl hs a d pc ram
  refine ⟨w, hw, h.simulates (t := ⟨sp, w, pc' + 5, pushed ram w⟩) ?_ ?_ rfl (fun _ _ => rfl)⟩
  · rw [List.all_append, hf]
    rfl
  · rw [sequence?_append, hq, Option.bind_some, sequence?_pushD _ _ _ _ _ hsp]

/-- The code of `push` does what the command says. -/
theorem push_carriesOut {code block : List Instruction} {x : Site} {s : State} {segment : Segment}
    {index : Int} (hb : push segment index x.file = .ok block)
    (h : Placed (Program.ofListing code) s.pc block) (hx : x.next = s.pc + codeSize block)
    (hr : ∀ w ∈ touched s.ram (.push segment index), AboveRegisters w)
    (hs : segment = .static → StaticAt code x.file index) :
    CarriesOut code x s (.push segment index) := by
  have hsp : s.ram sp ≠ sp := (hr (s.ram sp) (by simp [touched])).ne (by decide)
  obtain ⟨w, hw, hsim⟩ := push_simulates hb h hsp hs
  rw [← hx] at hsim
  exact ⟨⟨x.next, pushed s.ram w⟩, by simp only [StackMachine.step?, hw, Option.map_some], hsim⟩

theorem sequence?_pop_based (code : List Instruction) (b : Base) (index : Int) (a d : Word) (pc : Nat)
    (ram : Memory) (ht : AboveRegisters (ram sp - 1#16)) :
    sequence? (Program.ofListing code)
      ([symbol b.cell, assign "D" "M", number index, assign "D" "D+A", symbol "R13", assign "M" "D"]
        ++ popD ++ [symbol "R13", assign "A" "M", assign "M" "D"]) ⟨a, d, pc, ram⟩ =
      some ⟨ram b.register + BitVec.ofInt 16 index, top ram, pc + 12,
        Function.update (popped (Function.update ram r13 (ram b.register + BitVec.ofInt 16 index)))
          (ram b.register + BitVec.ofInt 16 index) (top ram)⟩ := by
  have hsp : Function.update ram r13 (ram b.register + BitVec.ofInt 16 index) sp - 1#16 ≠ sp := by
    rw [Function.update_of_ne (by decide)]
    exact ht.ne (by decide)
  have htop : top (Function.update ram r13 (ram b.register + BitVec.ofInt 16 index)) = top ram :=
    top_update (by decide) (ht.ne (by decide))
  rw [List.append_assoc, sequence?_append]
  simp only [sequence?_symbol, operand?_base, sequence?_number, sequence?_assign_D, operand?_R13,
    sequence?_assign_M, compute?_M, compute?_D, compute?_D_add_A, Option.bind_some, sequence?_nil,
    sequence?_append, sequence?_popD _ _ _ _ _ hsp, sequence?_assign_A, htop]
  -- `R13` is not the stack pointer, so it still holds the address
  rw [popped, Function.update_of_ne (show r13 ≠ sp by decide), Function.update_self]

/-- Code that takes the top of the stack into the cell that an operand stands for. -/
theorem Placed.simulates_popTo {code : List Instruction} {s : State} {o : Operand} {c : Word}
    {next : Nat} (ho : (Program.ofListing code).operand? o = some c)
    (h : Placed (Program.ofListing code) s.pc (popD ++ [.address o, assign "M" "D"]))
    (hn : next = s.pc + codeSize (popD ++ [.address o, assign "M" "D"]))
    (ht : s.ram sp - 1#16 ≠ sp) :
    Simulates code s ⟨next, Function.update (popped s.ram) c (top s.ram)⟩ [] := by
  obtain ⟨a, d, pc, ram⟩ := s
  refine h.simulates (t := ⟨c, top ram, pc + 5, Function.update (popped ram) c (top ram)⟩) rfl ?_ hn
    (fun _ _ => rfl)
  rw [sequence?_append, sequence?_popD _ _ _ _ _ ht, Option.bind_some, sequence?_address, ho]
  simp only [Option.bind_some, sequence?_assign_M, compute?_D, sequence?_nil]

/-- The memory while the address `c` of a cell behind a base cell waits in `R13`. -/
def parked (m : Memory) (c : Word) : Segment → Memory
  | .based _ => Function.update m r13 c
  | _ => m

theorem parked_other {segment : Segment} {index : Int} {cell : Word}
    (h : cell ∉ scratch (.pop segment index)) (m : Memory) (c : Word) :
    parked m c segment cell = m cell := by
  cases segment with
  | based b => exact Function.update_of_ne (by simpa [scratch] using h) ..
  | _ => rfl

theorem sp_not_mem_scratch (segment : Segment) (index : Int) : sp ∉ scratch (.pop segment index) := by
  cases segment with
  | based b => simp [scratch, sp, r13]
  | _ => exact List.not_mem_nil

/-- The code of `pop` takes the top of the stack into a cell of a segment, wherever that cell is. -/
theorem pop_simulates {code block : List Instruction} {l : Layout} {x : Site} {s : State}
    {segment : Segment} {index : Int} (hb : pop segment index x.file = .ok block)
    (h : Placed (Program.ofListing code) s.pc block) (ht : AboveRegisters (s.ram sp - 1#16))
    (hs : segment = .static → ∃ w, l.variableAt? (Naming.static x.file index) = some w ∧
      (Program.ofListing code).operand? (.symbol (Naming.static x.file index)) = some w) :
    ∃ c, cell? l x s.ram segment index = some c ∧ Simulates code s ⟨s.pc + codeSize block,
      Function.update (popped (parked s.ram c segment)) c (top s.ram)⟩ [] := by
  have hsp : s.ram sp - 1#16 ≠ sp := ht.ne (by decide)
  cases segment with
  | constant => cases hb
  | based b =>
    cases hb
    obtain ⟨a, d, pc, ram⟩ := s
    exact ⟨_, rfl, h.simulates rfl (sequence?_pop_based code b index a d pc ram ht) rfl fun _ _ => rfl⟩
  | pointer =>
    obtain ⟨n, hn, hb⟩ := bind_eq_ok.1 hb
    cases hb
    obtain ⟨hi, rfl⟩ : (0 ≤ index ∧ index ≤ 1) ∧ n = 3 + index := fixedCell_eq_ok hn
    exact ⟨_, if_pos hi, Placed.simulates_popTo rfl h rfl hsp⟩
  | temp =>
    obtain ⟨n, hn, hb⟩ := bind_eq_ok.1 hb
    cases hb
    obtain ⟨hi, rfl⟩ : (0 ≤ index ∧ index ≤ 7) ∧ n = 5 + index := fixedCell_eq_ok hn
    exact ⟨_, if_pos hi, Placed.simulates_popTo rfl h rfl hsp⟩
  | static =>
    obtain ⟨name, hname, hb⟩ := bind_eq_ok.1 hb
    obtain ⟨-, rfl⟩ := staticCell_eq_ok.1 hname
    cases hb
    obtain ⟨w, hw, ho⟩ := hs rfl
    exact ⟨w, hw, Placed.simulates_popTo ho h rfl hsp⟩

/-- The code of `pop` does what the command says. -/
theorem pop_carriesOut {code block : List Instruction} {x : Site} {s : State} {segment : Segment}
    {index : Int} (hb : pop segment index x.file = .ok block)
    (h : Placed (Program.ofListing code) s.pc block) (hx : x.next = s.pc + codeSize block)
    (hr : ∀ w ∈ touched s.ram (.pop segment index), AboveRegisters w)
    (hs : segment = .static → StaticAt code x.file index) :
    CarriesOut code x s (.pop segment index) := by
  have ht : AboveRegisters (s.ram sp - 1#16) := hr _ (by simp [touched])
  obtain ⟨c, hc, t, hreaches, hpc, hram⟩ := pop_simulates hb h ht hs
  refine ⟨⟨x.next, Function.update (popped s.ram) c (top s.ram)⟩,
    by simp only [StackMachine.step?, hc, Option.map_some], t, hreaches, hpc.trans hx.symm, ?_⟩
  intro cell hcell
  rw [hram cell List.not_mem_nil]
  simp only [Function.update_apply, popped, parked_other hcell,
    parked_other (sp_not_mem_scratch segment index)]

/-! ## Operators -/

section Straight
variable (code : List Instruction) (a d : Word) (pc : Nat) (ram : Memory)

theorem compute?_unary (u : Unary) (m : Word) : compute? u.comp a d m = some (u.apply m) := by
  cases u <;> rfl

theorem compute?_binary (b : Binary) (m : Word) : compute? b.comp a d m = some (b.apply m d) := by
  cases b with
  | add => exact congrArg some (BitVec.add_comm d m)
  | sub => rfl
  | and => exact congrArg some (BitVec.and_comm d m)
  | or => exact congrArg some (BitVec.or_comm d m)

theorem sequence?_unary (u : Unary) :
    sequence? (Program.ofListing code) (unary u) ⟨a, d, pc, ram⟩ =
      some ⟨ram sp - 1#16, d, pc + 3,
        Function.update ram (ram sp - 1#16) (u.apply (top ram))⟩ := by
  simp [unary, compute?_unary, top]

theorem sequence?_binary (b : Binary) (h₁ : ram sp - 1#16 ≠ sp) (h₂ : ram sp - 2#16 ≠ sp) :
    sequence? (Program.ofListing code) (binary b) ⟨a, d, pc, ram⟩ =
      some ⟨ram sp - 2#16, top ram, pc + 5,
        Function.update (popped ram) (ram sp - 2#16) (b.apply (second ram) (top ram))⟩ := by
  simp [binary, compute?_binary, popped, top, second, sub_one_sub_one, Function.update_of_ne h₁,
    Function.update_of_ne h₂]

end Straight

theorem unary_carriesOut {code : List Instruction} {x : Site} {s : State} {u : Unary}
    (h : Placed (Program.ofListing code) s.pc (unary u)) (hx : x.next = s.pc + codeSize (unary u)) :
    CarriesOut code x s (.operate (.unary u)) := by
  obtain ⟨a, d, pc, ram⟩ := s
  exact ⟨_, rfl, h.simulates rfl (sequence?_unary code a d pc ram u) hx fun _ _ => rfl⟩

theorem binary_carriesOut {code : List Instruction} {x : Site} {s : State} {b : Binary}
    (h : Placed (Program.ofListing code) s.pc (binary b)) (hx : x.next = s.pc + codeSize (binary b))
    (hr : ∀ w ∈ touched s.ram (.operate (.binary b)), AboveRegisters w) :
    CarriesOut code x s (.operate (.binary b)) := by
  obtain ⟨a, d, pc, ram⟩ := s
  have h₁ : ram sp - 1#16 ≠ sp := (hr _ (by simp [touched])).ne (by decide)
  have h₂ : ram sp - 2#16 ≠ sp := (hr _ (by simp [touched])).ne (by decide)
  exact ⟨_, rfl, h.simulates rfl (sequence?_binary code a d pc ram b h₁ h₂) hx fun _ _ => rfl⟩

/-- The jump of a comparison is taken if the comparison holds. -/
theorem taken?_condition (c : Comparison) (x y : Word) :
    taken? c.condition (x - y) = some (c.holds x y) := by
  cases c with
  | eq =>
    simp only [Comparison.condition, taken?, Comparison.holds, sub_eq_zero]
  | gt => rfl
  | lt => rfl

/-- The first part of a comparison: the difference in the data register, the place of the true
branch in the address register. -/
def compareHead (ordinal : Option Int) : List Instruction :=
  [symbol "SP", assign "AM" "M-1", assign "D" "M", assign "A" "A-1", assign "D" "M-D",
    symbol (Naming.whenTrue ordinal)]

def compareWrite (comp : String) : List Instruction :=
  [symbol "SP", assign "A" "M-1", assign "M" comp]

def compareFalse (c : Comparison) (ordinal : Option Int) : List Instruction :=
  compareHead ordinal ++ [jumpIf "D" c.condition] ++
    (compareWrite "0" ++ [symbol (Naming.whenDone ordinal)] ++ [jump])

theorem compare_eq (c : Comparison) (ordinal : Option Int) :
    compare c ordinal = compareFalse c ordinal ++
      .label (Naming.whenTrue ordinal) :: (compareWrite "-1" ++ [.label (Naming.whenDone ordinal)]) :=
  rfl

theorem labelAddress?_whenTrue {code before after : List Instruction} {c : Comparison}
    {ordinal : Option Int} (h : Loaded code) (hc : code = before ++ compare c ordinal ++ after) :
    labelAddress? (Naming.whenTrue ordinal) code = some (codeSize before + 12) := by
  have hsplit : code = (before ++ compareFalse c ordinal) ++ .label (Naming.whenTrue ordinal) ::
      (compareWrite "-1" ++ [.label (Naming.whenDone ordinal)] ++ after) := by
    rw [hc, compare_eq]
    simp only [List.append_assoc, List.cons_append]
  rw [h.labelAddress? hsplit, codeSize_append]
  rfl

theorem labelAddress?_whenDone {code before after : List Instruction} {c : Comparison}
    {ordinal : Option Int} (h : Loaded code) (hc : code = before ++ compare c ordinal ++ after) :
    labelAddress? (Naming.whenDone ordinal) code = some (codeSize before + 15) := by
  have hsplit : code = (before ++ (compareFalse c ordinal ++ .label (Naming.whenTrue ordinal) ::
      compareWrite "-1")) ++ .label (Naming.whenDone ordinal) :: after := by
    rw [hc, compare_eq]
    simp only [List.append_assoc, List.cons_append, List.nil_append]
  rw [h.labelAddress? hsplit, codeSize_append]
  rfl

theorem sequence?_compareHead {code : List Instruction} {ordinal : Option Int} {t : Word}
    (ht : (Program.ofListing code).operand? (.symbol (Naming.whenTrue ordinal)) = some t) (a d : Word)
    (pc : Nat) (ram : Memory) (h₁ : ram sp - 1#16 ≠ sp) (h₂ : ram sp - 2#16 ≠ sp) :
    sequence? (Program.ofListing code) (compareHead ordinal) ⟨a, d, pc, ram⟩ =
      some ⟨t, second ram - top ram, pc + 6, popped ram⟩ := by
  simp [compareHead, popped, top, second, sub_one_sub_one, ht,
    Function.update_of_ne h₁, Function.update_of_ne h₂]

theorem sequence?_compareWrite {comp : String} {w : Word}
    (hw : ∀ a d m, compute? comp a d m = some w) (code : List Instruction) (a d : Word) (pc : Nat)
    (ram : Memory) :
    sequence? (Program.ofListing code) (compareWrite comp) ⟨a, d, pc, popped ram⟩ =
      some ⟨ram sp - 2#16, d, pc + 3, Function.update (popped ram) (ram sp - 2#16) w⟩ := by
  have hsp : popped ram sp - 1#16 = ram sp - 2#16 := by
    rw [popped, Function.update_self, sub_one_sub_one]
  simp [compareWrite, hw, hsp]

/-- The code of a comparison writes `-1` or `0`, by one of its two branches. -/
theorem compare_carriesOut {code before after : List Instruction} {x : Site} {s : State}
    {c : Comparison} {ordinal : Option Int} (h : Loaded code)
    (hc : code = before ++ compare c ordinal ++ after) (hpc : s.pc = codeSize before)
    (hx : x.next = s.pc + codeSize (compare c ordinal))
    (hr : ∀ w ∈ touched s.ram (.operate (.compare c)), AboveRegisters w) :
    CarriesOut code x s (.operate (.compare c)) := by
  obtain ⟨a, d, pc, ram⟩ := s
  obtain rfl : pc = codeSize before := hpc
  have h₁ : ram sp - 1#16 ≠ sp := (hr _ (by simp [touched])).ne (by decide)
  have h₂ : ram sp - 2#16 ≠ sp := (hr _ (by simp [touched])).ne (by decide)
  obtain ⟨htrue, htrueNat⟩ := h.operand?_label (symbolic_whenTrue ordinal) (labelAddress?_whenTrue h hc)
  obtain ⟨hdone, hdoneNat⟩ := h.operand?_label (symbolic_whenDone ordinal) (labelAddress?_whenDone h hc)
  have hp : Placed (Program.ofListing code) (codeSize before) (compare c ordinal) := by
    rw [hc]
    exact Placed.ofListing before _ after
  rw [compare_eq] at hp
  have hjump := hp.left.left.reaches_jump rfl
    (sequence?_compareHead htrue a d (codeSize before) ram h₁ h₂) rfl (taken?_condition c _ _)
  refine ⟨_, rfl, ?_⟩
  cases hholds : c.holds (second ram) (top ram) with
  | true =>
    -- the true branch runs to the end of the block
    rw [hholds, if_pos rfl, htrueNat] at hjump
    have hwrite : sequence? (Program.ofListing code)
        (.label (Naming.whenTrue ordinal) :: (compareWrite "-1" ++ [.label (Naming.whenDone ordinal)]))
        ⟨BitVec.ofNat 16 (codeSize before + 12), second ram - top ram, codeSize before + 12, popped ram⟩ =
        some ⟨ram sp - 2#16, second ram - top ram, codeSize before + 15,
          Function.update (popped ram) (ram sp - 2#16) (-1#16)⟩ := by
      rw [sequence?_label, sequence?_append, sequence?_compareWrite (fun _ _ _ => rfl)]
      rfl
    obtain ⟨hend, -⟩ := hp.right.reaches (s := ⟨_, _, codeSize before + 12, _⟩) rfl hwrite
    exact ⟨_, hjump.trans hend, hx.symm, fun _ _ => by rw [Comparison.apply, hholds]; rfl⟩
  | false =>
    -- the false branch jumps over the true one
    rw [hholds, if_neg Bool.false_ne_true] at hjump
    have hwrite : sequence? (Program.ofListing code)
        (compareWrite "0" ++ [symbol (Naming.whenDone ordinal)])
        ⟨BitVec.ofNat 16 (codeSize before + 12), second ram - top ram, codeSize before + 7, popped ram⟩ =
        some ⟨BitVec.ofNat 16 (codeSize before + 15), second ram - top ram, codeSize before + 11,
          Function.update (popped ram) (ram sp - 2#16) (0#16)⟩ := by
      rw [sequence?_append, sequence?_compareWrite (fun _ _ _ => rfl), Option.bind_some,
        sequence?_symbol, hdone]
      rfl
    have hend := hp.left.right.reaches_jump (s := ⟨_, _, codeSize before + 7, _⟩) rfl hwrite
      (w := 0) (b := true) rfl rfl
    rw [if_pos rfl, hdoneNat] at hend
    exact ⟨_, hjump.trans hend, hx.symm, fun _ _ => by rw [Comparison.apply, hholds]; rfl⟩

end HackVm.Machine
