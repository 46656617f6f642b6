import HackVm.Proofs.StackBlocks

/-!
# The code of branches, calls and returns does what they say

* `label_carriesOut`, `goto_carriesOut`, `ifGoto_carriesOut` : branches inside a function;
* `function_carriesOut` : the entry of a function, by induction on the number of its locals;
* `call_carriesOut` : the frame of a call, the return address being the label behind the call;
* `ret_carriesOut` : the return, whatever `ARG` points at, be it the return address or a saved cell.
-/

namespace HackVm.Machine
open Instruction Block StackMachine
open Cell (sp lcl arg r13 r14)

/-! ## Branches -/

theorem label_carriesOut {code : List Instruction} {x : Site} {s : State} {name : String}
    (hx : x.next = s.pc + codeSize (Block.label x.file x.function name)) :
    CarriesOut code x s (.label name) :=
  ⟨_, rfl, s, .refl _ s, hx.symm, fun _ _ => rfl⟩

theorem goto_carriesOut {code : List Instruction} {x : Site} {s : State} {name : String} {t : Nat}
    (hc : Loaded code) (h : Placed (Program.ofListing code) s.pc (goto x.file x.function name))
    (ht : labelAddress? (Naming.label x.file x.function name) code = some t) :
    CarriesOut code x s (.goto name) := by
  obtain ⟨ho, hnat⟩ := hc.operand?_label (symbolic_label ..) ht
  refine ⟨⟨t, s.ram⟩, by simp only [StackMachine.step?, Layout.ofListing, ht, Option.map_some], ?_⟩
  have hs : sequence? (Program.ofListing code) [symbol (Naming.label x.file x.function name)] s =
      some ⟨BitVec.ofNat 16 t, s.d, s.pc + 1, s.ram⟩ := by
    rw [sequence?_symbol, ho]
    rfl
  have hr := Placed.reaches_jump h rfl hs (w := 0) (b := true) rfl rfl
  exact ⟨_, hr, hnat, fun _ _ => rfl⟩

theorem ifGoto_carriesOut {code : List Instruction} {x : Site} {s : State} {name : String} {t : Nat}
    (hc : Loaded code) (h : Placed (Program.ofListing code) s.pc (ifGoto x.file x.function name))
    (hx : x.next = s.pc + codeSize (ifGoto x.file x.function name))
    (hr : ∀ w ∈ touched s.ram (.ifGoto name), AboveRegisters w)
    (ht : labelAddress? (Naming.label x.file x.function name) code = some t) :
    CarriesOut code x s (.ifGoto name) := by
  obtain ⟨a, d, pc, ram⟩ := s
  obtain ⟨ho, hnat⟩ := hc.operand?_label (symbolic_label ..) ht
  have hsp : ram sp - 1#16 ≠ sp := (hr _ (by simp [touched])).ne (by decide)
  refine ⟨⟨if top ram = 0#16 then x.next else t, popped ram⟩,
    by simp only [StackMachine.step?, Layout.ofListing, ht, Option.map_some], ?_⟩
  have hs : sequence? (Program.ofListing code)
      (popD ++ [symbol (Naming.label x.file x.function name)]) ⟨a, d, pc, ram⟩ =
      some ⟨BitVec.ofNat 16 t, top ram, pc + 4, popped ram⟩ := by
    rw [sequence?_append, sequence?_popD _ _ _ _ _ hsp, Option.bind_some, sequence?_symbol, ho]
    rfl
  have hjump := Placed.reaches_jump h rfl hs (w := top ram) (b := top ram ≠ 0#16) rfl rfl
  refine ⟨_, hjump, ?_, fun _ _ => rfl⟩
  by_cases hz : top ram = 0#16
  · have hend : x.next = pc + 4 + 1 := hx
    simpa [hz] using hend.symm
  · simpa [hz] using hnat

/-! ## The entry of a function -/

theorem sequence?_pushZero (code : List Instruction) (a d : Word) (pc : Nat) (ram : Memory)
    (h : ram sp ≠ sp) :
    sequence? (Program.ofListing code) pushZero ⟨a, d, pc, ram⟩ =
      some ⟨sp, d, pc + 5, pushed ram 0#16⟩ := by
  simp [pushZero, pushed, Function.update_of_ne h.symm]

theorem falls_zeros (k : Nat) : (List.replicate k pushZero).flatten.all falls := by
  induction k with
  | zero => rfl
  | succ k ih => rw [List.replicate_succ, List.flatten_cons, List.all_append, ih]; rfl

theorem sequence?_zeros (code : List Instruction) (k : Nat) (a d : Word) (pc : Nat) (ram : Memory)
    (h : ∀ j < k, ram sp + BitVec.ofNat 16 j ≠ sp) :
    ∃ t, sequence? (Program.ofListing code) (List.replicate k pushZero).flatten ⟨a, d, pc, ram⟩ =
      some t ∧ t.ram = (pushed · 0#16)^[k] ram := by
  induction k generalizing a pc ram with
  | zero => exact ⟨_, rfl, rfl⟩
  | succ k ih =>
    have h0 : ram sp ≠ sp := by simpa using h 0 (Nat.succ_pos k)
    have hk : ∀ j < k, pushed ram 0#16 sp + BitVec.ofNat 16 j ≠ sp := by
      intro j hj
      rw [pushed_sp_add]
      exact h (j + 1) (Nat.succ_lt_succ hj)
    obtain ⟨t, ht, hm⟩ := ih sp (pc + 5) (pushed ram 0#16) hk
    refine ⟨t, ?_, by rw [hm, Function.iterate_succ_apply]⟩
    rw [List.replicate_succ, List.flatten_cons, sequence?_append, sequence?_pushZero _ _ _ _ _ h0]
    exact ht

theorem function_carriesOut {code : List Instruction} {x : Site} {s : State} {name : String}
    {locals : Int} (h : Placed (Program.ofListing code) s.pc (function name locals))
    (hx : x.next = s.pc + codeSize (function name locals))
    (hr : ∀ w ∈ touched s.ram (.function name locals), AboveRegisters w) :
    CarriesOut code x s (.function name locals) := by
  obtain ⟨a, d, pc, ram⟩ := s
  have hsp : ∀ j < locals.toNat, ram sp + BitVec.ofNat 16 j ≠ sp := by
    intro j hj
    exact (hr _ (mem_rising (Nat.le_of_lt hj))).ne (by decide)
  obtain ⟨t, ht, hm⟩ := sequence?_zeros code locals.toNat a d pc ram hsp
  refine ⟨_, rfl, h.simulates ?_ ht hx fun c _ => by rw [hm]⟩
  exact falls_zeros locals.toNat

/-! ## Calls -/

theorem sequence?_save {code : List Instruction} {name : String} {c : Word}
    (ho : (Program.ofListing code).operand? (.symbol name) = some c) (a d : Word) (pc : Nat)
    (ram : Memory) (h : ram sp ≠ sp) :
    sequence? (Program.ofListing code) (save name) ⟨a, d, pc, ram⟩ =
      some ⟨sp, ram c, pc + 7, pushed ram (ram c)⟩ := by
  rw [save, sequence?_append, sequence?_symbol, ho]
  simp only [Option.bind_some, sequence?_assign_D, compute?_M, sequence?_nil,
    sequence?_pushD _ _ _ _ _ h]

/-- Saving a list of registers puts the words that they hold at the start on the stack: saving one
does not touch the others, since the stack is above the registers. -/
theorem sequence?_saves {code : List Instruction} {cells : List (String × Word)}
    (ho : ∀ x ∈ cells, (Program.ofListing code).operand? (.symbol x.1) = some x.2)
    (hc : ∀ x ∈ cells, x.2.toNat < 16 ∧ x.2 ≠ sp) (a d : Word) (pc : Nat) (ram : Memory)
    (h : ∀ j < cells.length, AboveRegisters (ram sp + BitVec.ofNat 16 j)) :
    ∃ t, sequence? (Program.ofListing code) (cells.flatMap fun x => save x.1) ⟨a, d, pc, ram⟩ =
      some t ∧ t.ram = (cells.map fun x => ram x.2).foldl pushed ram := by
  induction cells generalizing a d pc ram with
  | nil => exact ⟨_, rfl, rfl⟩
  | cons x cells ih =>
    rw [List.forall_mem_cons] at ho hc
    have h0 : AboveRegisters (ram sp) := by simpa using h 0 (Nat.succ_pos _)
    have hnext : ∀ j < cells.length,
        AboveRegisters (pushed ram (ram x.2) sp + BitVec.ofNat 16 j) := by
      intro j hj
      rw [pushed_sp_add]
      exact h (j + 1) (Nat.succ_lt_succ hj)
    obtain ⟨t, ht, hm⟩ := ih ho.2 hc.2 sp (ram x.2) (pc + 7) (pushed ram (ram x.2)) hnext
    refine ⟨t, ?_, ?_⟩
    · rw [List.flatMap_cons, sequence?_append, sequence?_save ho.1 _ _ _ _ (h0.ne (by decide))]
      exact ht
    · rw [hm, List.map_cons, List.foldl_cons]
      congr 1
      refine List.map_congr_left fun y hy => ?_
      exact pushed_other _ (hc.2 y hy).2 (h0.ne (hc.2 y hy).1)

/-- The part of a call that puts the frame on the stack. -/
def frameHead (name : String) (ordinal : Option Int) : List Instruction :=
  [symbol (Naming.returnTo name ordinal), assign "D" "A"] ++ pushD ++ savedCells.flatMap save

/-- The part of a call that sets `ARG` and `LCL`. -/
def frameTail (arguments : Int) : List Instruction :=
  [symbol "SP", assign "D" "M", number (frameSize + arguments), assign "D" "D-A", symbol "ARG",
      assign "M" "D"] ++
    [symbol "SP", assign "D" "M", symbol "LCL", assign "M" "D"]

theorem call_eq (name : String) (arguments : Int) (ordinal : Option Int) :
    call name arguments ordinal = frameHead name ordinal ++ frameTail arguments ++ [symbol name] ++
      [jump] ++ [.label (Naming.returnTo name ordinal)] := by
  simp only [call, frameHead, frameTail, List.append_assoc, List.cons_append, List.nil_append]

def savedRegisters : List (String × Word) :=
  [("LCL", lcl), ("ARG", arg), ("THIS", Cell.this), ("THAT", Cell.that)]

theorem saves_eq : savedCells.flatMap save = savedRegisters.flatMap fun x => save x.1 := rfl

theorem sequence?_frameHead {code : List Instruction} {name : String} {ordinal : Option Int} {w : Word}
    (ho : (Program.ofListing code).operand? (.symbol (Naming.returnTo name ordinal)) = some w)
    (a d : Word) (pc : Nat) (ram : Memory) (h : ∀ j < 5, AboveRegisters (ram sp + BitVec.ofNat 16 j)) :
    ∃ t, sequence? (Program.ofListing code) (frameHead name ordinal) ⟨a, d, pc, ram⟩ = some t ∧
      t.ram = [w, ram lcl, ram arg, ram Cell.this, ram Cell.that].foldl pushed ram := by
  have h0 : AboveRegisters (ram sp) := by simpa using h 0 (by decide)
  have hnext : ∀ j < 4, AboveRegisters (pushed ram w sp + BitVec.ofNat 16 j) := by
    intro j hj
    rw [pushed_sp_add]
    exact h (j + 1) (by omega)
  have hsame : ∀ c : Word, c.toNat < 16 → c ≠ sp → pushed ram w c = ram c :=
    fun c hc hne => pushed_other w hne (h0.ne hc)
  have hpush : sequence? (Program.ofListing code)
      ([symbol (Naming.returnTo name ordinal), assign "D" "A"] ++ pushD) ⟨a, d, pc, ram⟩ =
      some ⟨sp, w, pc + 7, pushed ram w⟩ := by
    rw [sequence?_append, sequence?_symbol, ho]
    simp only [Option.bind_some, sequence?_assign_D, compute?_A, sequence?_nil,
      sequence?_pushD _ _ _ _ _ (h0.ne (by decide))]
  have ho' : ∀ x ∈ savedRegisters, (Program.ofListing code).operand? (.symbol x.1) = some x.2 := by
    simp [savedRegisters]
  obtain ⟨t, ht, hm⟩ := sequence?_saves ho' (by decide) sp w (pc + 7) (pushed ram w) hnext
  refine ⟨t, ?_, ?_⟩
  · rw [frameHead, sequence?_append, hpush, Option.bind_some, saves_eq, ht]
  · rw [hm]
    simp only [savedRegisters, List.map_cons, List.map_nil, List.foldl_cons, List.foldl_nil,
      hsame lcl (by decide) (by decide), hsame arg (by decide) (by decide),
      hsame Cell.this (by decide) (by decide), hsame Cell.that (by decide) (by decide)]

theorem sequence?_frameTail (code : List Instruction) (arguments : Int) (s : State) :
    ∃ t, sequence? (Program.ofListing code) (frameTail arguments) s = some t ∧
      t.ram = Function.update
        (Function.update s.ram arg (s.ram sp - BitVec.ofInt 16 (frameSize + arguments)))
        lcl (s.ram sp) := by
  obtain ⟨a, d, pc, ram⟩ := s
  refine ⟨⟨lcl, ram sp, pc + 10, Function.update
    (Function.update ram arg (ram sp - BitVec.ofInt 16 (frameSize + arguments))) lcl (ram sp)⟩, ?_, rfl⟩
  simp [frameTail, Function.update_of_ne (show sp ≠ arg by decide)]

/-- Before it jumps, a call has built its frame. -/
theorem sequence?_frame {code : List Instruction} {name : String} {arguments : Int}
    {ordinal : Option Int} {next : Nat}
    (ho : (Program.ofListing code).operand? (.symbol (Naming.returnTo name ordinal)) =
      some (BitVec.ofNat 16 next))
    (a d : Word) (pc : Nat) (ram : Memory) (h : ∀ j < 5, AboveRegisters (ram sp + BitVec.ofNat 16 j)) :
    ∃ t, sequence? (Program.ofListing code) (frameHead name ordinal ++ frameTail arguments)
      ⟨a, d, pc, ram⟩ = some t ∧ t.ram = framed ram next arguments := by
  obtain ⟨u, hu, hm⟩ := sequence?_frameHead ho a d pc ram h
  obtain ⟨t, ht, hm'⟩ := sequence?_frameTail code arguments u
  refine ⟨t, by rw [sequence?_append, hu, Option.bind_some, ht], ?_⟩
  have hsp : u.ram sp - BitVec.ofInt 16 (frameSize + arguments) = ram sp - BitVec.ofInt 16 arguments := by
    have h5 : BitVec.ofInt 16 frameSize = 5#16 := rfl
    rw [hm, foldl_pushed_sp, BitVec.ofInt_add, h5]
    simp only [List.length_cons, List.length_nil]
    ring
  rw [hm', hsp, hm, framed]

/-- The return address of a call is behind its code. -/
theorem labelAddress?_returnTo {code before after : List Instruction} {name : String} {arguments : Int}
    {ordinal : Option Int} (h : Loaded code) (hc : code = before ++ call name arguments ordinal ++ after) :
    labelAddress? (Naming.returnTo name ordinal) code =
      some (codeSize before + codeSize (call name arguments ordinal)) := by
  have hsplit : code = (before ++ (frameHead name ordinal ++ frameTail arguments ++ [symbol name] ++
      [jump])) ++ .label (Naming.returnTo name ordinal) :: after := by
    rw [hc, call_eq]
    simp only [List.append_assoc, List.cons_append, List.nil_append]
  rw [h.labelAddress? hsplit, codeSize_append, call_eq, codeSize_append _ [.label _]]
  rfl

/-- The code of a call builds a frame and goes to the function. -/
theorem call_carriesOut {code before after : List Instruction} {x : Site} {s : State} {name : String}
    {arguments : Int} {ordinal : Option Int} {t : Nat} (h : Loaded code) (hs : Symbolic name)
    (hc : code = before ++ call name arguments ordinal ++ after) (hpc : s.pc = codeSize before)
    (hx : x.next = s.pc + codeSize (call name arguments ordinal))
    (hr : ∀ w ∈ touched s.ram (.call name arguments), AboveRegisters w)
    (ht : labelAddress? name code = some t) : CarriesOut code x s (.call name arguments) := by
  obtain ⟨a, d, pc, ram⟩ := s
  obtain rfl : pc = codeSize before := hpc
  have hret : labelAddress? (Naming.returnTo name ordinal) code = some x.next := by
    rw [hx]
    exact labelAddress?_returnTo h hc
  obtain ⟨hretOperand, -⟩ := h.operand?_label (symbolic_returnTo name ordinal) hret
  obtain ⟨hname, hnat⟩ := h.operand?_label hs ht
  have hp : Placed (Program.ofListing code) (codeSize before) (call name arguments ordinal) := by
    rw [hc]
    exact Placed.ofListing before _ after
  rw [call_eq] at hp
  have hstack : ∀ j < 5, AboveRegisters (ram sp + BitVec.ofNat 16 j) := by
    intro j hj
    exact hr _ (mem_rising (Nat.le_of_lt hj))
  obtain ⟨u, hu, hm⟩ := sequence?_frame hretOperand a d (codeSize before) ram hstack
  have hload : sequence? (Program.ofListing code)
      (frameHead name ordinal ++ frameTail arguments ++ [symbol name])
      ⟨a, d, codeSize before, ram⟩ = some ⟨BitVec.ofNat 16 t, u.d, u.pc + 1, u.ram⟩ := by
    rw [sequence?_append, hu, Option.bind_some, sequence?_symbol, hname]
    rfl
  refine ⟨⟨t, framed ram x.next arguments⟩,
    by simp only [StackMachine.step?, Layout.ofListing, ht, Option.map_some], ?_⟩
  have hjump := Placed.reaches_jump hp.left rfl hload (w := 0) (b := true) rfl rfl
  exact ⟨_, hjump, hnat, fun c _ => by rw [← hm]⟩

/-! ## Returns -/

/-- The part of a return that keeps the end of the frame in `R13` and the return address in `R14`. -/
def retHead : List Instruction :=
  [symbol "LCL", assign "D" "M", symbol "R13", assign "M" "D"] ++
    [number frameSize, assign "A" "D-A", assign "D" "M", symbol "R14", assign "M" "D"]

/-- The part of a return that puts the result in place of the arguments. -/
def retResult : List Instruction :=
  popD ++ [symbol "ARG", assign "A" "M", assign "M" "D"] ++
    [symbol "ARG", assign "D" "M+1", symbol "SP", assign "M" "D"]

theorem ret_eq :
    ret = retHead ++ retResult ++ (restore "THAT" ++ restore "THIS" ++ restore "ARG" ++ restore "LCL") ++
      [symbol "R14", assign "A" "M"] ++ [jump] := rfl

theorem sequence?_retHead (code : List Instruction) (a d : Word) (pc : Nat) (ram : Memory)
    (h : AboveRegisters (ram lcl - 5#16)) :
    sequence? (Program.ofListing code) retHead ⟨a, d, pc, ram⟩ =
      some ⟨r14, ram (ram lcl - 5#16), pc + 9, Function.update (Function.update ram r13 (ram lcl))
        r14 (ram (ram lcl - 5#16))⟩ := by
  have h5 : BitVec.ofInt 16 frameSize = 5#16 := rfl
  simp [retHead, h5, Function.update_of_ne (h.ne (show r13.toNat < 16 by decide))]

theorem sequence?_retResult (code : List Instruction) (a d : Word) (pc : Nat) (ram : Memory)
    (hsp : ram sp - 1#16 ≠ sp) (harg : AboveRegisters (ram arg)) :
    sequence? (Program.ofListing code) retResult ⟨a, d, pc, ram⟩ =
      some ⟨sp, ram arg + 1#16, pc + 10,
        Function.update (Function.update ram (ram arg) (top ram)) sp (ram arg + 1#16)⟩ := by
  have hpop : popped ram arg = ram arg := Function.update_of_ne (by decide) ..
  have harg' : arg ≠ ram arg := (harg.ne (by decide)).symm
  have hmem : Function.update (Function.update (popped ram) (ram arg) (top ram)) sp (ram arg + 1#16) =
      Function.update (Function.update ram (ram arg) (top ram)) sp (ram arg + 1#16) := by
    rw [popped, Function.update_comm (harg.ne (by decide)).symm, Function.update_idem]
  rw [retResult, List.append_assoc, sequence?_append, sequence?_popD _ _ _ _ _ hsp, Option.bind_some]
  simp [hpop, Function.update_of_ne harg', hmem]

/-- While the saved cells are being restored, `R13` points behind the next one, `R14` keeps the
return address, and memory is otherwise as in `m`. -/
structure Restoring (m : Memory) (frame back : Word) (ram : Memory) : Prop where
  walks : ram r13 = frame
  keeps : ram r14 = back
  agrees : ∀ c ∉ [r13, r14], ram c = m c

theorem Restoring.restore {code : List Instruction} {m : Memory} {frame back : Word} {s : State}
    {name : String} {c : Word} (h : Restoring m frame back s.ram)
    (ho : (Program.ofListing code).operand? (.symbol name) = some c) (hc : c ∉ [r13, r14])
    (hf : AboveRegisters (frame - 1#16)) :
    ∃ t, sequence? (Program.ofListing code) (restore name) s = some t ∧
      Restoring (Function.update m c (m (frame - 1#16))) (frame - 1#16) back t.ram := by
  obtain ⟨a, d, pc, ram⟩ := s
  have hne : c ≠ r13 ∧ c ≠ r14 := by simpa using hc
  have hwalks : ram r13 = frame := h.walks
  have hread : ram (frame - 1#16) = m (frame - 1#16) := by
    refine h.agrees _ ?_
    simp [hf.ne (show r13.toNat < 16 by decide), hf.ne (show r14.toNat < 16 by decide)]
  refine ⟨⟨c, m (frame - 1#16), pc + 5, Function.update (Function.update ram r13 (frame - 1#16)) c
    (m (frame - 1#16))⟩, ?_, ?_⟩
  · simp [Block.restore, ho, hwalks, hread,
      Function.update_of_ne (hf.ne (show r13.toNat < 16 by decide))]
  · constructor
    · exact (Function.update_of_ne hne.1.symm ..).trans (Function.update_self ..)
    · exact (Function.update_of_ne hne.2.symm ..).trans
        ((Function.update_of_ne (by decide) ..).trans h.keeps)
    · intro b hb
      have hb13 : b ≠ r13 := fun e => hb (by simp [e])
      have hbm : ram b = m b := h.agrees b hb
      simp only [Function.update_apply, if_neg hb13, hbm]

/-- The four saved cells come back from below `local`. The frame lies above the registers, so
restoring one does not touch the words of the others. -/
theorem Restoring.restoreAll (code : List Instruction) (s : State) {m : Memory} {frame back : Word}
    (h : Restoring m frame back s.ram) (h₁ : AboveRegisters (frame - 1#16))
    (h₂ : AboveRegisters (frame - 2#16)) (h₃ : AboveRegisters (frame - 3#16))
    (h₄ : AboveRegisters (frame - 4#16)) :
    ∃ t, sequence? (Program.ofListing code)
        (Block.restore "THAT" ++ Block.restore "THIS" ++ Block.restore "ARG" ++ Block.restore "LCL") s =
        some t ∧ t.ram r14 = back ∧
      ∀ c ∉ [r13, r14], t.ram c = Function.update (Function.update (Function.update
        (Function.update m Cell.that (m (frame - 1#16))) Cell.this (m (frame - 2#16)))
        arg (m (frame - 3#16))) lcl (m (frame - 4#16)) c := by
  have e₂ : frame - 1#16 - 1#16 = frame - 2#16 := sub_sub frame 1#16 1#16
  have e₃ : frame - 2#16 - 1#16 = frame - 3#16 := sub_sub frame 2#16 1#16
  have e₄ : frame - 3#16 - 1#16 = frame - 4#16 := sub_sub frame 3#16 1#16
  obtain ⟨t₁, hs₁, r₁⟩ := h.restore (operand?_THAT code) (by decide) h₁
  obtain ⟨t₂, hs₂, r₂⟩ := r₁.restore (operand?_THIS code) (by decide) (by rwa [e₂])
  rw [e₂, Function.update_of_ne (h₂.ne (by decide))] at r₂
  obtain ⟨t₃, hs₃, r₃⟩ := r₂.restore (operand?_ARG code) (by decide) (by rwa [e₃])
  rw [e₃, Function.update_of_ne (h₃.ne (by decide)), Function.update_of_ne (h₃.ne (by decide))] at r₃
  obtain ⟨t₄, hs₄, r₄⟩ := r₃.restore (operand?_LCL code) (by decide) (by rwa [e₄])
  rw [e₄, Function.update_of_ne (h₄.ne (by decide)), Function.update_of_ne (h₄.ne (by decide)),
    Function.update_of_ne (h₄.ne (by decide))] at r₄
  refine ⟨t₄, ?_, r₄.keeps, r₄.agrees⟩
  rw [sequence?_append, sequence?_append, sequence?_append, hs₁, Option.bind_some, hs₂,
    Option.bind_some, hs₃, Option.bind_some, hs₄]

/-- The memory of a return before the saved cells are restored. -/
theorem restoring_result {ram m : Memory} (hm : m = Function.update
      (Function.update ram r13 (ram lcl)) r14 (ram (ram lcl - 5#16)))
    (htop : AboveRegisters (ram sp - 1#16)) (harg : AboveRegisters (ram arg)) :
    m sp = ram sp ∧ m arg = ram arg ∧
      Restoring (Function.update (Function.update ram (ram arg) (top ram)) sp (ram arg + 1#16))
        (ram lcl) (ram (ram lcl - 5#16))
        (Function.update (Function.update m (m arg) (top m)) sp (m arg + 1#16)) := by
  have hsame : ∀ c ∉ [r13, r14], m c = ram c := by
    intro c hc
    have hc' : c ≠ r13 ∧ c ≠ r14 := by simpa using hc
    rw [hm, Function.update_of_ne hc'.2, Function.update_of_ne hc'.1]
  have hsp : m sp = ram sp := hsame sp (by decide)
  have hargm : m arg = ram arg := hsame arg (by decide)
  have htopm : top m = top ram := by
    rw [top, hsp]
    refine hsame _ ?_
    simp [htop.ne (show r13.toNat < 16 by decide), htop.ne (show r14.toNat < 16 by decide)]
  have hscratch : ∀ c ∈ [r13, r14], Function.update (Function.update m (ram arg) (top ram)) sp
      (ram arg + 1#16) c = m c := by
    intro c hc
    have hc' : c.toNat < 16 ∧ c ≠ sp := by
      rcases List.mem_cons.1 hc with rfl | hc
      · decide
      · obtain rfl := List.mem_singleton.1 hc
        decide
    rw [Function.update_of_ne hc'.2, Function.update_of_ne (harg.ne hc'.1).symm]
  rw [hargm, htopm]
  refine ⟨hsp, rfl, ?_, ?_, ?_⟩
  · rw [hscratch r13 (by decide), hm, Function.update_of_ne (by decide), Function.update_self]
  · rw [hscratch r14 (by decide), hm, Function.update_self]
  · intro c hc
    simp only [Function.update_apply, hsame c hc]

/-- The code of a return puts the result in place of the arguments, restores the saved cells and goes
to the return address. That address is read first, so it may be the cell that the result goes to. -/
theorem ret_carriesOut {code : List Instruction} {x : Site} {s : State}
    (h : Placed (Program.ofListing code) s.pc ret) (hr : ∀ w ∈ touched s.ram .ret, AboveRegisters w) :
    CarriesOut code x s .ret := by
  obtain ⟨a, d, pc, ram⟩ := s
  have htop : AboveRegisters (ram sp - 1#16) := hr _ (by simp [touched])
  have harg : AboveRegisters (ram arg) := hr _ (by simp [touched])
  rw [ret_eq] at h
  have hhead := sequence?_retHead code a d pc ram (hr _ (by simp [touched]))
  generalize hm : Function.update (Function.update ram r13 (ram lcl)) r14 (ram (ram lcl - 5#16)) = m
    at hhead
  obtain ⟨hsp, hargm, hrest⟩ := restoring_result hm.symm htop harg
  have hresult := sequence?_retResult code r14 (ram (ram lcl - 5#16)) (pc + 9) m
    (by rw [hsp]; exact htop.ne (by decide)) (by rw [hargm]; exact harg)
  obtain ⟨t, ht, hback, hmem⟩ := Restoring.restoreAll code ⟨sp, m arg + 1#16, pc + 9 + 10,
      Function.update (Function.update m (m arg) (top m)) sp (m arg + 1#16)⟩ hrest
    (hr _ (by simp [touched])) (hr _ (by simp [touched])) (hr _ (by simp [touched]))
    (hr _ (by simp [touched]))
  have hs : sequence? (Program.ofListing code) (retHead ++ retResult ++
      (restore "THAT" ++ restore "THIS" ++ restore "ARG" ++ restore "LCL") ++
      [symbol "R14", assign "A" "M"]) ⟨a, d, pc, ram⟩ =
      some ⟨ram (ram lcl - 5#16), t.d, t.pc + 2, t.ram⟩ := by
    rw [sequence?_append, sequence?_append, sequence?_append, hhead, Option.bind_some, hresult,
      Option.bind_some, ht, Option.bind_some, ← hback]
    rfl
  have hjump := Placed.reaches_jump h rfl hs (w := 0) (b := true) rfl rfl
  exact ⟨_, rfl, _, hjump, rfl, hmem⟩

end HackVm.Machine
