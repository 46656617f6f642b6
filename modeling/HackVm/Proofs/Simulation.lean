import HackVm.Proofs.ControlBlocks
import HackVm.Proofs.SymbolTable

/-!
# Every command of a run is carried out by its code

* `Site.of` : the place of a block behind other blocks;
* `staticAt_of_kept` : the symbol of a static variable that a run uses stands for a cell of its own;
* `command_carriesOut` : started at the code of a command, the machine gets to where the stack machine
  gets by the command.

The emitter kept labels and static symbols apart, so loading the listing gives every symbol the meaning
that the stack machine gives it; the rest is one lemma for each kind of command.
-/

namespace HackVm.Machine
open Instruction StackMachine

/-! ## Symbols of a run -/

theorem predefined?_static (file : String) (index : Int) :
    predefined? (Naming.static file index) = none := by
  have hdot : '.' ∈ (Naming.static file index).toList := by simp [Naming.static]
  exact predefined?_of_mem hdot (by decide)

theorem staticAt_of_kept {options : Options} {e : Emitter} {blocks : List Emitted} {b : Emitted}
    {index : Int} (h : Kept options e blocks) (hb : b ∈ blocks)
    (hs : b.static? = some (Naming.static b.file index))
    (hmem : symbol (Naming.static b.file index) ∈ b.code) :
    StaticAt e.listing.toList b.file index := by
  have hused : Naming.static b.file index ∈ e.statics := (h.statics _).2 ⟨b, hb, hs, hmem⟩
  refine operand?_variable (symbolic_static _ _) ?_ (predefined?_static _ _) ?_
  · rw [h.listing]
    exact List.mem_flatMap.2 ⟨b, hb, List.mem_append_right _ hmem⟩
  · intro hlabel
    exact h.disjoint _ ((h.labels _).2 hlabel) hused

/-! ## Blocks of a run -/

/-- The place of the block `b` behind the blocks `before`. -/
def Site.of (before : List Emitted) (b : Emitted) : Site :=
  ⟨b.file, b.function, codeSize (linesOf (before ++ [b]))⟩

theorem codeSize_note {note : List Instruction} (h : ∀ i ∈ note, ∃ t, i = .comment t) :
    codeSize note = 0 := by
  refine List.countP_eq_zero.2 fun i hi => ?_
  obtain ⟨t, rfl⟩ := h i hi
  simp [isCode]

/-- The command at a block is carried out by its code. -/
theorem carriesOut_of_kept {options : Options} {e : Emitter} {before after : List Emitted}
    {b : Emitted} {c : Command} {s : State} (h : Kept options e (before ++ b :: after))
    (hb : b.origin = .command c) (hload : Loaded e.listing.toList)
    (hname : ∀ n k, c = .call n k → Symbolic n) (hpc : s.pc = codeSize (linesOf before))
    (hr : ∀ w ∈ touched s.ram c, AboveRegisters w)
    (ht : ∀ n, target? (Site.of before b) c = some n → n ∈ labelNames e.listing.toList) :
    CarriesOut e.listing.toList (Site.of before b) s c := by
  have hmem : b ∈ before ++ b :: after := List.mem_append_right _ List.mem_cons_self
  have hnote : codeSize b.note = 0 := codeSize_note (h.note b hmem)
  have hsplit : e.listing.toList = (linesOf before ++ b.note) ++ b.code ++ linesOf after := by
    rw [h.listing]
    simp [linesOf, Emitted.lines]
  have hstart : s.pc = codeSize (linesOf before ++ b.note) := by
    rw [codeSize_append, hnote, hpc, Nat.add_zero]
  have hnext : (Site.of before b).next = s.pc + codeSize b.code := by
    rw [hpc]
    simp [Site.of, linesOf, Emitted.lines, hnote]
  have hp : Placed (Program.ofListing e.listing.toList) s.pc b.code := by
    rw [hsplit, hstart]
    exact Placed.ofListing ..
  have haddress : ∀ n, target? (Site.of before b) c = some n →
      ∃ k, labelAddress? n e.listing.toList = some k :=
    fun n hn => Option.isSome_iff_exists.1 (labelAddress?_isSome (ht n hn))
  obtain ⟨e', -, hfile, hfunction, hcode⟩ := h.coded b hmem
  rw [hb] at hcode
  cases c with
  | push segment index =>
    have hblock : Block.push segment index b.file = .ok b.code := by
      rw [← hfile]
      exact Emitter.withSegment_eq_ok hcode
    refine push_carriesOut hblock hp hnext hr ?_
    rintro rfl
    refine staticAt_of_kept h hmem (by rw [Emitted.static?, hb]; rfl) ?_
    rw [(Block.push_static_eq_ok.1 hblock).2]
    exact List.mem_cons_self
  | pop segment index =>
    have hblock : Block.pop segment index b.file = .ok b.code := by
      rw [← hfile]
      exact Emitter.withSegment_eq_ok hcode
    refine pop_carriesOut hblock hp hnext hr ?_
    rintro rfl
    refine staticAt_of_kept h hmem (by rw [Emitted.static?, hb]; rfl) ?_
    rw [(Block.pop_static_eq_ok.1 hblock).2]
    exact List.mem_append_right _ List.mem_cons_self
  | operate o =>
    cases o with
    | unary u =>
      rw [← Except.ok.inj hcode] at hp hnext
      exact unary_carriesOut hp hnext
    | binary o =>
      rw [← Except.ok.inj hcode] at hp hnext
      exact binary_carriesOut hp hnext hr
    | compare o =>
      rw [← Except.ok.inj hcode] at hsplit hnext
      exact compare_carriesOut hload hsplit hstart hnext hr
  | label name =>
    rw [← Except.ok.inj hcode, hfile, hfunction] at hnext
    exact label_carriesOut hnext
  | goto name =>
    obtain ⟨k, hk⟩ := haddress _ rfl
    rw [← Except.ok.inj hcode, hfile, hfunction] at hp
    exact goto_carriesOut hload hp hk
  | ifGoto name =>
    obtain ⟨k, hk⟩ := haddress _ rfl
    rw [← Except.ok.inj hcode, hfile, hfunction] at hp hnext
    exact ifGoto_carriesOut hload hp hnext hr hk
  | function name locals =>
    rw [← Except.ok.inj hcode] at hp hnext
    exact function_carriesOut hp hnext hr
  | call name arguments =>
    obtain ⟨k, hk⟩ := haddress _ rfl
    rw [← Except.ok.inj hcode] at hsplit hnext
    exact call_carriesOut hload (hname name arguments rfl) hsplit hstart hnext hr hk
  | ret =>
    rw [← Except.ok.inj hcode] at hp
    exact ret_carriesOut hp hr

/-- Take any run from a fresh emitter, with any files and faults in it, whose listing the assembler
accepts and which fits into program memory. For every command in it, started at its code in a memory
where the stack and the segments that the command touches lie above the registers, the machine gets to
where the stack machine gets by the command. The function of a call has to be more than digits, which
the assembler takes for a number, and a branch needs its label. -/
theorem command_carriesOut (options : Options) (orders : List Order) {code : List Instruction}
    {before after : List Emitted} {b : Emitted} {c : Command} {s : State}
    (hcode : (({ options := options } : Emitter).after orders).listing.toList = code)
    (hblocks : ({ options := options } : Emitter).trace orders = before ++ b :: after)
    (hb : b.origin = .command c) (hpre : ∀ n ∈ labelNames code, predefined? n = none)
    (hsize : codeSize code ≤ 32768) (hname : ∀ n k, c = .call n k → Symbolic n)
    (hpc : s.pc = codeSize (linesOf before)) (hr : ∀ w ∈ touched s.ram c, AboveRegisters w)
    (ht : ∀ n, target? (Site.of before b) c = some n → n ∈ labelNames code) :
    CarriesOut code (Site.of before b) s c := by
  have hkept := (Kept.fresh options).after orders
  rw [List.nil_append, hblocks] at hkept
  subst hcode
  exact carriesOut_of_kept hkept hb ⟨⟨hkept.nodup, hpre⟩, hsize⟩ hname hpc hr ht

/-- A function that calls itself, with the stack at 256. -/
theorem selfCall_carriesOut :
    CarriesOut (Block.function "Main.main" 0 ++ Block.call "Main.main" 0 (some 0))
      ⟨"Main", some "Main.main", 47⟩ ⟨0, 0, 0, fun _ => 256#16⟩ (.call "Main.main" 0) := by
  have hblocks : ({} : Emitter).trace [.enter "Main", .command (.function "Main.main" 0),
      .command (.call "Main.main" 0)] =
      [⟨.command (.function "Main.main" 0), "Main", none, [], Block.function "Main.main" 0⟩] ++
        ⟨.command (.call "Main.main" 0), "Main", some "Main.main", [],
          Block.call "Main.main" 0 (some 0)⟩ :: [] := rfl
  refine command_carriesOut {} _ rfl hblocks rfl ?_ ?_ ?_ rfl ?_ ?_
  · decide
  · decide
  · intro n k h
    cases h
    exact symbolic_of_mem (c := '.') (by decide) (by decide)
  · intro w hw
    simp [touched, rising, List.range_succ] at hw
    rcases hw with rfl | rfl | rfl | rfl | rfl | rfl <;> decide
  · intro n h
    cases h
    decide

end HackVm.Machine
