import HackVm.Proofs.StackBlocks

/-!
# Taking a word from the stack and putting it back

The code of `pop` followed by the code of `push` for the same cell of a segment leaves the stack as it
was, wherever the cell is: it may lie in the stack, it may be `R13`, where the address of the cell waits
during `pop`, or the base cell of another segment. Only the stack pointer and the base cell of the
segment itself cannot be overwritten on the way.

* `Layout.ofProgram` : the layout in which symbols stand for what a program loads for them;
* `Stored`, `Restored` : what is in memory after the word has been taken, and after it is back;
* `Stored.cell?` : the segment still names the same cell;
* `Stored.restored` : putting the word back restores the stack;
* `pop_push_restores` : the two blocks of code, placed anywhere in a listing.
-/

namespace HackVm

def StackMachine.Layout.ofProgram (p : Machine.Program) : StackMachine.Layout where
  labelAt? := p.value?
  variableAt? name := p.operand? (.symbol name)

namespace Machine
open Instruction StackMachine
open Cell (sp r13)

/-! ## Memory -/

/-- From `m` to `m'` the top of the stack has been taken into `c`. Nothing else has changed, apart from
the cells in `S`. -/
structure Stored (S : List Word) (c : Word) (m m' : Memory) : Prop where
  pointer : m' sp = m sp - 1#16
  stored : m' c = top m
  rest : ∀ k, k ≠ sp → k ≠ c → k ∉ S → m' k = m k

/-- From `m` to `m'` the top of the stack has been copied into `c`. Nothing else has changed, apart from
the cells in `S`. -/
structure Restored (S : List Word) (c : Word) (m m' : Memory) : Prop where
  pointer : m' sp = m sp
  top : top m' = top m
  stored : m' c = StackMachine.top m
  rest : ∀ k, k ≠ c → k ∉ S → m' k = m k

section Memory
variable {S : List Word} {c : Word} {m m' : Memory}

/-- A word that is put back comes to lie where it was. -/
theorem Stored.restored (h : Stored S c m m') (hc : c ≠ sp) (ht : m sp - 1#16 ≠ sp) :
    Restored S c m (pushed m' (m' c)) := by
  have hpointer : pushed m' (m' c) sp = m sp := by
    rw [pushed_sp, h.pointer, sub_add_cancel]
  have htop : pushed m' (m' c) (m sp - 1#16) = top m := by
    rw [pushed, Function.update_of_ne ht, h.pointer, Function.update_self, h.stored]
  have hother : ∀ k, k ≠ sp → k ≠ m sp - 1#16 → pushed m' (m' c) k = m' k := by
    intro k hk hkt
    refine pushed_other _ hk ?_
    rw [h.pointer]
    exact hkt.symm
  refine ⟨hpointer, ?_, ?_, ?_⟩
  · rw [StackMachine.top, hpointer, htop]
  · by_cases hct : c = m sp - 1#16
    · rw [hct]
      rw [hct] at htop
      exact htop
    · rw [hother c hc hct, h.stored]
  · intro k hkc hkS
    by_cases hk : k = sp
    · rw [hk, hpointer]
    · by_cases hkt : k = m sp - 1#16
      · rw [hkt, htop]
        rfl
      · rw [hother k hk hkt, h.rest k hk hkc hkS]

theorem register_ne_sp (b : Base) : b.register ≠ sp := by cases b <;> decide

theorem register_not_mem_scratch (b : Base) (index : Int) :
    b.register ∉ scratch (.pop (.based b) index) := by
  have hne : b.register ≠ r13 := by cases b <;> decide
  exact fun hmem => hne (List.mem_singleton.1 hmem)

/-- The segment names the same cell as before, since its base cell has not changed. -/
theorem Stored.cell? {l : Layout} {x : Site} {segment : Segment} {index : Int}
    (h : Stored (scratch (.pop segment index)) c m m') (hc : cell? l x m segment index = some c)
    (hbase : ∀ b, segment = .based b → c ≠ b.register) : cell? l x m' segment index = some c := by
  cases segment with
  | based b =>
    have hregister : m' b.register = m b.register :=
      h.rest _ (register_ne_sp b) (hbase b rfl).symm (register_not_mem_scratch b index)
    rw [← hc, StackMachine.cell?, StackMachine.cell?, hregister]
  | _ => exact hc

theorem word?_of_cell? {l : Layout} {x : Site} {segment : Segment} {index : Int}
    (h : cell? l x m segment index = some c) : word? l x m segment index = some (m c) := by
  cases segment with
  | constant => cases h
  | _ => exact congrArg (Option.map m) h

/-- What the code of `pop` leaves in memory. -/
theorem stored_parked {segment : Segment} (index : Int) (hc : c ≠ sp)
    (hm : ∀ k, m' k = Function.update (popped (parked m c segment)) c (top m) k) :
    Stored (scratch (.pop segment index)) c m m' := by
  have hsp : parked m c segment sp = m sp := parked_other (sp_not_mem_scratch segment index) m c
  refine ⟨?_, ?_, ?_⟩
  · rw [hm, Function.update_of_ne hc.symm, popped, Function.update_self, hsp]
  · rw [hm, Function.update_self]
  · intro k hk hkc hkS
    rw [hm, Function.update_of_ne hkc, popped, Function.update_of_ne hk, parked_other hkS]

end Memory

/-! ## Code -/

theorem push_of_pop {segment : Segment} {index : Int} {file : String} {popping : List Instruction}
    (h : Block.pop segment index file = .ok popping) :
    ∃ pushing, Block.push segment index file = .ok pushing := by
  cases segment with
  | constant => exact ⟨_, rfl⟩
  | based b => exact ⟨_, rfl⟩
  | pointer =>
    obtain ⟨n, hn, -⟩ := bind_eq_ok.1 h
    exact ⟨_, bind_eq_ok.2 ⟨_, bind_eq_ok.2 ⟨n, hn, rfl⟩, rfl⟩⟩
  | temp =>
    obtain ⟨n, hn, -⟩ := bind_eq_ok.1 h
    exact ⟨_, bind_eq_ok.2 ⟨_, bind_eq_ok.2 ⟨n, hn, rfl⟩, rfl⟩⟩
  | static => exact ⟨_, Block.push_static_eq_ok.2 ⟨(Block.pop_static_eq_ok.1 h).1, rfl⟩⟩

/-- The symbol of a static variable stands for something where the code that takes a word into it is
placed. -/
theorem staticAt_of_pop {code popping : List Instruction} {segment : Segment} {index : Int}
    {file : String} {pc : Nat} (hpop : Block.pop segment index file = .ok popping)
    (h : Placed (Program.ofListing code) pc popping) (hs : segment = .static) :
    ∃ w, (Layout.ofProgram (Program.ofListing code)).variableAt? (Naming.static file index) = some w ∧
      (Program.ofListing code).operand? (.symbol (Naming.static file index)) = some w := by
  subst hs
  obtain ⟨-, rfl⟩ := Block.pop_static_eq_ok.1 hpop
  have hmem : symbol (Naming.static file index) ∈ code :=
    h.mem (List.mem_append_right _ List.mem_cons_self) rfl
  obtain ⟨w, hw⟩ := exists_operand? (symbolic_static file index) hmem
  exact ⟨w, hw, hw⟩

/-- Take the code of any `pop` that there is code for, placed anywhere in a listing, and a memory with a
word on the stack, above the registers. There is code of `push` for the same segment and index, and the
segment names a cell; let that be neither the stack pointer nor the base cell of the segment. The machine
runs through the code of `pop`, which takes the top of the stack into the cell. Whenever it then comes to
the code of `push` with that memory, it runs through that too, and the stack is as it was; only the cell
has changed, and `R13` if the cell was behind a base cell. -/
theorem pop_push_restores {code popping : List Instruction} {x : Site} {s : State} {segment : Segment}
    {index : Int} (hpop : Block.pop segment index x.file = .ok popping)
    (h : Placed (Program.ofListing code) s.pc popping) (hsp : 17 ≤ (s.ram sp).toNat) :
    ∃ pushing c, Block.push segment index x.file = .ok pushing ∧
      cell? (.ofProgram (Program.ofListing code)) x s.ram segment index = some c ∧
      (c ≠ sp → (∀ b, segment = .based b → c ≠ b.register) →
        ∃ t, Reaches (Program.ofListing code) s t ∧ t.pc = s.pc + codeSize popping ∧
          Stored (scratch (.pop segment index)) c s.ram t.ram ∧
          ∀ t' : State, t'.ram = t.ram → Placed (Program.ofListing code) t'.pc pushing →
            ∃ u, Reaches (Program.ofListing code) t' u ∧ u.pc = t'.pc + codeSize pushing ∧
              Restored (scratch (.pop segment index)) c s.ram u.ram) := by
  have htop : AboveRegisters (s.ram sp - 1#16) := by
    have hnat := toNat_sub_ofNat (w := s.ram sp) (k := 1) (by omega)
    unfold AboveRegisters
    omega
  have hstatic := staticAt_of_pop hpop h
  obtain ⟨pushing, hpush⟩ := push_of_pop hpop
  obtain ⟨c, hc, t, hreaches, hend, hram⟩ := pop_simulates hpop h htop hstatic
  refine ⟨pushing, c, hpush, hc, fun hcsp hbase => ?_⟩
  have hstored : Stored (scratch (.pop segment index)) c s.ram t.ram :=
    stored_parked index hcsp fun k => hram k List.not_mem_nil
  refine ⟨t, hreaches, hend, hstored, fun t' ht' hplaced => ?_⟩
  rw [← ht'] at hstored
  have hsp' : t'.ram sp ≠ sp := by
    rw [hstored.pointer]
    exact htop.ne (by decide)
  obtain ⟨w, hw, u, hreaches', hend', hram'⟩ := push_simulates hpush hplaced hsp' hstatic
  obtain rfl : t'.ram c = w := Option.some.inj ((word?_of_cell? (hstored.cell? hc hbase)).symm.trans hw)
  refine ⟨u, hreaches', hend', ?_⟩
  rw [show u.ram = pushed t'.ram (t'.ram c) from funext fun k => hram' k List.not_mem_nil]
  exact hstored.restored hcsp (htop.ne (by decide))

/-- A memory with 77 on top of the stack, in which `local 3` is `R13`. -/
def scratchLocal : Memory :=
  fun k => if k = sp then 300#16 else if k = Cell.lcl then 10#16 else if k = 299#16 then 77#16 else 0#16

/-- The address of the cell waits in the cell itself, and is overwritten by the word. -/
theorem pop_push_restores_r13 :
    ∃ popping pushing u, Block.pop (.based .lcl) 3 "Main" = .ok popping ∧
      Block.push (.based .lcl) 3 "Main" = .ok pushing ∧
      Reaches (Program.ofListing (popping ++ pushing)) ⟨0, 0, 0, scratchLocal⟩ u ∧ u.pc = 22 ∧
      u.ram sp = 300#16 ∧ top u.ram = 77#16 ∧ u.ram r13 = 77#16 ∧
      ∀ k, k ≠ r13 → u.ram k = scratchLocal k := by
  obtain ⟨popping, hpop⟩ : ∃ popping, Block.pop (.based .lcl) 3 "Main" = .ok popping := ⟨_, rfl⟩
  obtain ⟨pushing, hpush⟩ : ∃ pushing, Block.push (.based .lcl) 3 "Main" = .ok pushing := ⟨_, rfl⟩
  have hsize : codeSize popping = 12 ∧ codeSize pushing = 10 := by
    cases hpop
    cases hpush
    exact ⟨rfl, rfl⟩
  have hplaced : Placed (Program.ofListing (popping ++ pushing)) 0 popping :=
    Placed.ofListing [] popping pushing
  have hplaced' : Placed (Program.ofListing (popping ++ pushing)) 12 pushing := by
    have h := Placed.ofListing popping pushing []
    rwa [List.append_nil, hsize.1] at h
  obtain ⟨pushing', c, hpush', hc, hrun⟩ := pop_push_restores (x := ⟨"Main", none, 22⟩)
    (s := ⟨0, 0, 0, scratchLocal⟩) hpop hplaced (by decide)
  cases hpush'.symm.trans hpush
  obtain rfl : r13 = c := Option.some.inj hc
  have hbase : ∀ b, Segment.based .lcl = .based b → r13 ≠ b.register := by
    rintro b ⟨⟩
    decide
  obtain ⟨t, hreaches, hend, -, hback⟩ := hrun (by decide) hbase
  rw [hsize.1] at hend
  obtain ⟨u, hreaches', hend', hrestored⟩ := hback t rfl (by rw [hend]; exact hplaced')
  refine ⟨popping, pushing, u, hpop, hpush, hreaches.trans hreaches', ?_, hrestored.pointer,
    hrestored.top, hrestored.stored, fun k hk => hrestored.rest k hk ?_⟩
  · rw [hend', hend, hsize.2]
  · simpa [scratch] using hk

end Machine

end HackVm
