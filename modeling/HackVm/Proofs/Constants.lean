import HackVm.Proofs.Rendering

/-!
# Numbers that do not fit into an instruction

An address instruction has 15 bits for its number. The cells that code names by number are small, but a
command may hold a number of any size, and nothing checks those that its code takes over.

* `largestAddress` : the largest number that an address instruction can hold;
* `Emitter.mem_numbersIn_after` : the numbers in a listing are those of the blocks in it;
* `Emitter.large_mem_listing_iff` : the numbers that do not fit are those that commands hold.
-/

namespace HackVm
open Instruction

def largestAddress : Int := 2 ^ 15 - 1

/-- Some text is accepted and holds the command. -/
def Command.IsSource (c : Command) : Prop :=
  ∃ text statements, Script.read text = .accepted statements ∧ ∃ st ∈ statements, st.command = c

theorem Command.isSource_iff {c : Command} : c.IsSource ↔ c.Writable := by
  constructor
  · rintro ⟨text, statements, hread, st, hst, rfl⟩
    exact Script.writable_of_readFrom hread (fun _ hnil => nomatch hnil) st hst
  · intro h
    have hread : Script.read (Script.printed [c]) = .accepted [⟨1, c⟩] :=
      Script.read_printed_of_writable fun c' hc' => List.mem_singleton.1 hc' ▸ h
    exact ⟨_, _, hread, _, List.mem_singleton_self _, rfl⟩

/-- Source text holds no negative numbers, and adding the size of a frame leads to none. -/
theorem Command.Writable.constant_nonneg {c : Command} (h : c.Writable) {n : Int}
    (hn : c.constant? = some n) : 0 ≤ n := by
  cases c with
  | push s i =>
    rw [Segment.eq_of_constant? hn]
    exact h.1
  | pop s i =>
    rw [Segment.eq_of_constant? hn]
    exact h.2.1
  | call name k =>
    obtain rfl : Block.frameSize + k = n := Option.some.inj hn
    have hk : 0 ≤ k := h.2.1
    omega
  | _ => cases hn

theorem numbersIn_comments {note : List Instruction} (h : ∀ i ∈ note, ∃ t, i = .comment t) :
    numbersIn note = [] := by
  refine List.filterMap_eq_nil_iff.2 fun i hi => ?_
  obtain ⟨t, rfl⟩ := h i hi
  rfl

namespace Emitter

def Loads (e : Emitter) (g : Origin) (n : Int) : Prop :=
  ∃ code, (e.prepare g).2 = .ok code ∧ n ∈ numbersIn code

theorem gathers_numbers (n : Int) :
    Gathers (n ∈ numbersIn ·.listing.toList) (fun e g => e.Loads g n) where
  alike ha := by rw [ha.listing]
  emits {e b e'} hb := by
    rw [hb.listing, Emitted.lines, numbersIn_append, numbersIn_append, numbersIn_comments hb.note,
      List.nil_append, List.mem_append]
    exact or_congr_right (hb.iff_exists_code fun code => n ∈ numbersIn code)

/-- The numbers in a listing are those that the code of the orders carried out loads. -/
theorem mem_numbersIn_after {options : Options} {orders : List Order} {n : Int} :
    n ∈ numbersIn (({ options := options } : Emitter).after orders).listing.toList ↔
      ∃ e g, ({ options := options } : Emitter).Coded orders e g ∧ e.Loads g n := by
  rw [(gathers_numbers n).after]
  exact or_iff_right fun h => nomatch h

/-- A number that code loads is small, or a command holds it. -/
theorem number_of_coded {options : Options} (hbase : options.stackBase = .number 256)
    {orders : List Order} {e : Emitter} {g : Origin}
    (hcoded : ({ options := options } : Emitter).Coded orders e g) {n : Int} (hn : e.Loads g n) :
    (0 ≤ n ∧ n ≤ largestAddress) ∨
    ∃ o ∈ orders, ∃ c : Command, o.origin? = some (.command c) ∧ c.constant? = some n := by
  obtain ⟨o, ⟨before, more, rfl, rfl⟩, hg, -⟩ := hcoded
  obtain ⟨code, hcode, hn⟩ := hn
  -- The largest number that code loads without taking it from a command is where the stack starts.
  have hsmall : 256 ≤ largestAddress := by decide
  rcases number_of_prepare hcode hn with ⟨hlow, hhigh⟩ | hconstant
  · exact .inl ⟨hlow, by omega⟩
  · cases g with
    | bootstrap =>
      rw [options_after, Origin.constant?, hbase] at hconstant
      cases hconstant
      exact .inl ⟨by decide, hsmall⟩
    | command c => exact .inr ⟨o, List.mem_append_right _ List.mem_cons_self, c, hg, hconstant⟩

/-- In a run that carries out commands from source text, and starts the stack at 256, no instruction
loads a negative number, and one loads a number beyond 15 bits only if a command holds it: as the index
of a constant or of a cell behind a base, or as the number of arguments once the rest of a frame is added
to it. All such numbers are loaded. -/
theorem large_mem_listing_iff (options : Options) (hbase : options.stackBase = .number 256)
    (orders : List Order) (hsource : ∀ o ∈ orders, ∀ c, o.origin? = some (.command c) → c.IsSource)
    (h : ({ options := options } : Emitter).Completes orders) :
    let numbers := numbersIn (({ options := options } : Emitter).after orders).listing.toList
    (∀ n ∈ numbers, 0 ≤ n) ∧
    ∀ n, largestAddress < n → (n ∈ numbers ↔
      ∃ o ∈ orders, ∃ c : Command, o.origin? = some (.command c) ∧ c.constant? = some n) := by
  intro numbers
  refine ⟨fun n hn => ?_, fun n hlarge => ⟨fun hn => ?_, ?_⟩⟩
  · obtain ⟨e, g, hcoded, hloads⟩ := mem_numbersIn_after.1 hn
    rcases number_of_coded hbase hcoded hloads with ⟨hlow, -⟩ | ⟨o, ho, c, hc, hconstant⟩
    · exact hlow
    · exact (Command.isSource_iff.1 (hsource o ho c hc)).constant_nonneg hconstant
  · obtain ⟨e, g, hcoded, hloads⟩ := mem_numbersIn_after.1 hn
    rcases number_of_coded hbase hcoded hloads with ⟨-, hhigh⟩ | hcommand
    · omega
    · exact hcommand
  · rintro ⟨o, ho, c, hc, hconstant⟩
    obtain ⟨before, more, rfl⟩ := List.append_of_mem ho
    have hrun := h _ o ⟨before, more, rfl, rfl⟩
    obtain ⟨code, hcode, -⟩ := emits_of_none hc hrun
    refine mem_numbersIn_after.2 ⟨_, _, ⟨o, ⟨before, more, rfl, rfl⟩, hc, hrun⟩, code, hcode, ?_⟩
    rw [numbersIn_of_prepare hcode]
    exact Origin.mem_numbers hconstant

def roomy : List Order :=
  [.bootstrap, .enter "Main", .command (.push .constant 32767), .bare (.call "f" 32763),
    .access .pop "temp" 7, .command (.push .static 32768)]

theorem large_mem_listing_iff_roomy :
    (∀ n ∈ numbersIn (({} : Emitter).after roomy).listing.toList, 0 ≤ n) ∧
    ∀ n, largestAddress < n →
      (n ∈ numbersIn (({} : Emitter).after roomy).listing.toList ↔ n = 32768) := by
  have horigins : roomy.filterMap Order.origin? = [.bootstrap, .command (.push .constant 32767),
      .command (.call "f" 32763), .command (.pop .temp 7), .command (.push .static 32768)] := by
    decide
  have hcommand : ∀ o ∈ roomy, ∀ c : Command, o.origin? = some (.command c) →
      c = .push .constant 32767 ∨ c = .call "f" 32763 ∨ c = .pop .temp 7 ∨ c = .push .static 32768 := by
    intro o ho c hc
    have hmem := List.mem_filterMap.2 ⟨o, ho, hc⟩
    rw [horigins] at hmem
    simpa using hmem
  have hsource : ∀ o ∈ roomy, ∀ c, o.origin? = some (.command c) → c.IsSource := by
    intro o ho c hc
    refine Command.isSource_iff.2 ?_
    rcases hcommand o ho c hc with rfl | rfl | rfl | rfl
    · exact ⟨by decide, by decide +kernel⟩
    · exact ⟨⟨'f', [], rfl, by decide, nofun⟩, by decide, by decide +kernel⟩
    · exact ⟨by decide, by decide, by decide +kernel⟩
    · exact ⟨by decide, by decide +kernel⟩
  have hcompletes : ({} : Emitter).Completes roomy := by
    simp only [roomy, completes_cons]
    refine ⟨?_, ?_, ?_, ?_, ?_, ?_, completes_nil _⟩ <;> decide
  obtain ⟨hlow, hlarge⟩ := large_mem_listing_iff {} rfl roomy hsource hcompletes
  refine ⟨hlow, fun n hn => (hlarge n hn).trans ⟨?_, ?_⟩⟩
  · rintro ⟨o, ho, c, hc, hconstant⟩
    rcases hcommand o ho c hc with rfl | rfl | rfl | rfl
    · cases hconstant
      exact absurd hn (by decide)
    · cases hconstant
      rfl
    · cases hconstant
    · cases hconstant
  · rintro rfl
    exact ⟨.bare (.call "f" 32763), by decide, _, rfl, rfl⟩

/-- Source text may hold a constant beyond 15 bits, and its code loads it. -/
theorem constant_beyond_limit :
    ∃ statements, Script.read "push constant 32768\n".toList = .accepted statements ∧
      ({} : Emitter).Completes (statements.map fun st => .command st.command) ∧
      ∃ n ∈ numbersIn (({} : Emitter).after (statements.map fun st => .command st.command)).listing.toList,
        ¬ (0 ≤ n ∧ n ≤ largestAddress) := by
  refine ⟨[⟨1, .push .constant 32768⟩], by decide, ?_, 32768, by decide, by decide⟩
  exact completes_cons.2 ⟨by decide, completes_nil _⟩

end Emitter

end HackVm
