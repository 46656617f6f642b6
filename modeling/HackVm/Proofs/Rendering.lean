import HackVm.Proofs.Building
import HackVm.Proofs.Numerals
import HackVm.Proofs.Printing
import HackVm.Proofs.StackBlocks

/-!
# Which listings can be written

A number that source text holds can be written again, but the code of a call adds to the number of
arguments, and the sum may be too long. Nothing else in a listing can be.

* `numbersIn` : the numbers that a fragment loads;
* `numbersIn_of_prepare` : the numbers in the code of an origin;
* `Origin.constant?`, `number_of_prepare` : all but the numbers of some cells are taken over;
* `Build.Laid.origins`, `Build.Laid.code_of_mem` : the blocks of a listing;
* `Build.Laid.render_of_call`, `Build.Laid.render_cases` : a listing is written unless a call has too many
  arguments.
-/

namespace HackVm
open Instruction

/-! ## Numbers in code -/

def Instruction.number? : Instruction → Option Int
  | .address (.number n) => some n
  | _ => none

def numbersIn (code : List Instruction) : List Int := code.filterMap Instruction.number?

theorem numbersIn_append (code more : List Instruction) :
    numbersIn (code ++ more) = numbersIn code ++ numbersIn more := List.filterMap_append

theorem writable_iff {i : Instruction} : i.Writable ↔ ∀ n, i.number? = some n → Numeral.Fits n := by
  unfold Instruction.number? Instruction.Writable
  split <;> simp

theorem all_writable_iff {code : List Instruction} :
    (∀ i ∈ code, i.Writable) ↔ ∀ n ∈ numbersIn code, Numeral.Fits n := by
  simp only [writable_iff, numbersIn, List.mem_filterMap]
  exact ⟨fun h n ⟨i, hi, hn⟩ => h i hi n hn, fun h i hi n hn => h n ⟨i, hi, hn⟩⟩

theorem Listing.render_of_fits {l : Listing} (h : ∀ n ∈ numbersIn l.toList, Numeral.Fits n) :
    l.render = .ok l.text := by
  unfold render
  rw [if_pos]
  simpa using all_writable_iff.2 h

theorem Listing.render_of_not_fits {l : Listing} {n : Int} (hn : n ∈ numbersIn l.toList)
    (h : ¬ Numeral.Fits n) : l.render = .error .written := by
  unfold render
  rw [if_neg]
  intro hall
  refine h (all_writable_iff.1 ?_ n hn)
  simpa using hall

/-- The numbers of the cells that code names by number. -/
def Small (n : Int) : Prop := 0 ≤ n ∧ n ≤ 12

theorem Small.fits {n : Int} (h : Small n) : Numeral.Fits n := by
  have hlimit : 12 < Nat.pow 10 Numeral.limit := by decide +kernel
  have hle : n.natAbs ≤ 12 := by
    unfold Small at h
    omega
  exact Nat.lt_of_le_of_lt hle hlimit

def Segment.Holds : Segment → Int → Prop
  | .pointer, i => 0 ≤ i ∧ i ≤ 1
  | .temp, i => 0 ≤ i ∧ i ≤ 7
  | _, _ => True

/-- The numbers that the code of an access loads. -/
def Segment.numbers : Segment → Int → List Int
  | .constant, i => [i]
  | .based _, i => [i]
  | .pointer, i => [3 + i]
  | .temp, i => [5 + i]
  | .static, _ => []

/-- The number that the code of an access takes over from its index. -/
def Segment.constant? : Segment → Int → Option Int
  | .constant, i => some i
  | .based _, i => some i
  | _, _ => none

theorem Segment.eq_of_constant? {s : Segment} {i n : Int} (h : s.constant? i = some n) : n = i := by
  cases s <;> cases h <;> rfl

theorem Segment.mem_numbers {s : Segment} {i n : Int} (h : s.constant? i = some n) : n ∈ s.numbers i := by
  cases s <;> cases h <;> exact List.mem_singleton_self _

theorem Segment.number_cases {s : Segment} {i n : Int} (hi : s.Holds i) (hn : n ∈ s.numbers i) :
    Small n ∨ s.constant? i = some n := by
  cases s with
  | constant => exact .inr (congrArg some (List.mem_singleton.1 hn).symm)
  | based b => exact .inr (congrArg some (List.mem_singleton.1 hn).symm)
  | pointer =>
    obtain ⟨hlow, hhigh⟩ : 0 ≤ i ∧ i ≤ 1 := hi
    have hn : n = 3 + i := List.mem_singleton.1 hn
    unfold Small
    omega
  | temp =>
    obtain ⟨hlow, hhigh⟩ : 0 ≤ i ∧ i ≤ 7 := hi
    have hn : n = 5 + i := List.mem_singleton.1 hn
    unfold Small
    omega
  | static => cases hn

namespace Block

theorem numbersIn_load {s : Segment} {i : Int} {file : String} {code : List Instruction}
    (h : load s i file = .ok code) : s.Holds i ∧ numbersIn code = s.numbers i := by
  cases s with
  | constant => cases h; exact ⟨trivial, rfl⟩
  | based b => cases h; exact ⟨trivial, rfl⟩
  | pointer =>
    obtain ⟨cell, hcell, hcode⟩ := bind_eq_ok.1 h
    cases hcode
    obtain ⟨hi, rfl⟩ := Machine.fixedCell_eq_ok hcell
    exact ⟨hi, rfl⟩
  | temp =>
    obtain ⟨cell, hcell, hcode⟩ := bind_eq_ok.1 h
    cases hcode
    obtain ⟨hi, rfl⟩ := Machine.fixedCell_eq_ok hcell
    exact ⟨hi, rfl⟩
  | static =>
    obtain ⟨name, -, hcode⟩ := bind_eq_ok.1 h
    cases hcode
    exact ⟨trivial, rfl⟩

theorem numbersIn_push {s : Segment} {i : Int} {file : String} {code : List Instruction}
    (h : push s i file = .ok code) : s.Holds i ∧ numbersIn code = s.numbers i := by
  obtain ⟨loading, hl, hcode⟩ := bind_eq_ok.1 h
  cases hcode
  obtain ⟨hi, hnumbers⟩ := numbersIn_load hl
  refine ⟨hi, ?_⟩
  rw [numbersIn_append, hnumbers]
  exact List.append_nil _

theorem numbersIn_pop {s : Segment} {i : Int} {file : String} {code : List Instruction}
    (h : pop s i file = .ok code) : s.Holds i ∧ numbersIn code = s.numbers i := by
  cases s with
  | constant => cases h
  | based b => cases h; exact ⟨trivial, rfl⟩
  | pointer =>
    obtain ⟨cell, hcell, hcode⟩ := bind_eq_ok.1 h
    cases hcode
    obtain ⟨hi, rfl⟩ := Machine.fixedCell_eq_ok hcell
    exact ⟨hi, rfl⟩
  | temp =>
    obtain ⟨cell, hcell, hcode⟩ := bind_eq_ok.1 h
    cases hcode
    obtain ⟨hi, rfl⟩ := Machine.fixedCell_eq_ok hcell
    exact ⟨hi, rfl⟩
  | static =>
    obtain ⟨name, -, hcode⟩ := bind_eq_ok.1 h
    cases hcode
    exact ⟨trivial, rfl⟩

theorem numbersIn_function (name : String) (locals : Int) : numbersIn (function name locals) = [] := by
  have hzeros : ∀ k : Nat, numbersIn (List.replicate k pushZero).flatten = [] := by
    intro k
    induction k with
    | zero => rfl
    | succ k ih =>
      rw [List.replicate_succ, List.flatten_cons, numbersIn_append, ih]
      rfl
  exact hzeros locals.toNat

end Block

/-- The numbers that the code for an origin loads, in order. -/
def Origin.numbers (o : Options) : Origin → List Int
  | .bootstrap => numbersIn [.address o.stackBase] ++ [(Block.frameSize : Int)]
  | .command (.push s i) => s.numbers i
  | .command (.pop s i) => s.numbers i
  | .command (.call _ k) => [Block.frameSize + k]
  | .command .ret => [(Block.frameSize : Int)]
  | _ => []

theorem numbersIn_of_prepare {e : Emitter} {g : Origin} {code : List Instruction}
    (h : (e.prepare g).2 = .ok code) : numbersIn code = g.numbers e.options := by
  cases g with
  | bootstrap =>
    cases h
    rw [Block.bootstrap, List.cons_append, ← List.singleton_append, numbersIn_append]
    rfl
  | command c =>
    cases c with
    | push s i => exact (Block.numbersIn_push (Emitter.withSegment_eq_ok h)).2
    | pop s i => exact (Block.numbersIn_pop (Emitter.withSegment_eq_ok h)).2
    | operate o => cases o <;> cases h <;> rfl
    | function name k =>
      cases h
      exact Block.numbersIn_function name k
    | _ =>
      cases h
      rfl

/-- The number that the code of a command takes over from it. The code of a call loads the size of its
frame, with the arguments. -/
def Command.constant? : Command → Option Int
  | .push s i => s.constant? i
  | .pop s i => s.constant? i
  | .call _ k => some (Block.frameSize + k)
  | _ => none

def Origin.constant? (o : Options) : Origin → Option Int
  | .bootstrap => match o.stackBase with
    | .number n => some n
    | .symbol _ => none
  | .command c => c.constant?

theorem Origin.mem_numbers {o : Options} {g : Origin} {n : Int} (h : g.constant? o = some n) :
    n ∈ g.numbers o := by
  cases g with
  | bootstrap =>
    rw [Origin.numbers, List.mem_append]
    refine .inl ?_
    rw [Origin.constant?] at h
    split at h
    · next hbase =>
      cases h
      rw [hbase]
      exact List.mem_singleton_self _
    · cases h
  | command c =>
    cases c with
    | push s i => exact Segment.mem_numbers h
    | pop s i => exact Segment.mem_numbers h
    | call name k =>
      cases h
      exact List.mem_singleton_self _
    | _ => cases h

/-- Code names small cells, and takes over at most one number. -/
theorem number_of_prepare {e : Emitter} {g : Origin} {code : List Instruction}
    (h : (e.prepare g).2 = .ok code) {n : Int} (hn : n ∈ numbersIn code) :
    Small n ∨ g.constant? e.options = some n := by
  rw [numbersIn_of_prepare h] at hn
  cases g with
  | bootstrap =>
    rw [Origin.numbers, List.mem_append] at hn
    rcases hn with hn | hn
    · cases hbase : e.options.stackBase with
      | number m =>
        rw [hbase] at hn
        rw [List.mem_singleton.1 hn, Origin.constant?, hbase]
        exact .inr rfl
      | symbol name =>
        rw [hbase] at hn
        cases hn
    · rw [List.mem_singleton.1 hn]
      exact .inl ⟨by decide, by decide⟩
  | command c =>
    cases c with
    | push s i => exact Segment.number_cases (Block.numbersIn_push (Emitter.withSegment_eq_ok h)).1 hn
    | pop s i => exact Segment.number_cases (Block.numbersIn_pop (Emitter.withSegment_eq_ok h)).1 hn
    | call name k => exact .inr (congrArg some (List.mem_singleton.1 hn).symm)
    | ret =>
      rw [List.mem_singleton.1 hn]
      exact .inl ⟨by decide, by decide⟩
    | _ => cases hn

/-! ## Listings -/

theorem origins_placesFrom (file : String) (function : Option String) (cs : List Command) :
    (placesFrom file function cs).map Prod.fst = cs.map .command := by
  induction cs generalizing function with
  | nil => rfl
  | cons c cs ih => rw [placesFrom, List.map_cons, List.map_cons, ih]

namespace Build

def commandsOf (qs : List Part) : List Command := qs.flatMap Part.commands

theorem origins_places (o : Options) (qs : List Part) :
    (places o qs).map Prod.fst =
      (if o.bootstrap then [.bootstrap] else []) ++ (commandsOf qs).map .command := by
  unfold places
  rw [List.map_append]
  congr 1
  · split <;> rfl
  · induction qs with
    | nil => rfl
    | cons q qs ih =>
      rw [List.flatMap_cons, List.map_append, Part.places, origins_placesFrom, ih, commandsOf, commandsOf,
        List.flatMap_cons, List.map_append]

namespace Laid

variable {o : Options} {qs : List Part} {l : Listing} {blocks : List Emitted}

theorem origins (h : Laid o qs l blocks) : blocks.map Emitted.origin =
    (if o.bootstrap then [.bootstrap] else []) ++ (commandsOf qs).map .command := by
  rw [← origins_places, ← h.place, List.map_map]
  rfl

theorem code_of_mem (h : Laid o qs l blocks) {b : Emitted} (hb : b ∈ blocks) :
    ∃ e : Emitter, e.options = o ∧ (e.prepare b.origin).2 = .ok b.code := by
  obtain ⟨before, more, rfl⟩ := List.append_of_mem hb
  exact ⟨_, rfl, (h.code before b more rfl).code⟩

theorem numbersIn_note (h : Laid o qs l blocks) {b : Emitted} (hb : b ∈ blocks) : numbersIn b.note = [] := by
  obtain ⟨before, more, rfl⟩ := List.append_of_mem hb
  rw [(h.code before b more rfl).note]
  split <;> rfl

theorem mem_numbersIn (h : Laid o qs l blocks) {n : Int} :
    n ∈ numbersIn l.toList ↔ ∃ b ∈ blocks, n ∈ numbersIn b.code := by
  have hlines : ∀ b ∈ blocks, numbersIn b.lines = numbersIn b.code := by
    intro b hb
    rw [Emitted.lines, numbersIn_append, h.numbersIn_note hb, List.nil_append]
  rw [h.listing, numbersIn, linesOf, List.filterMap_flatMap, List.mem_flatMap]
  constructor
  · rintro ⟨b, hb, hn⟩
    refine ⟨b, hb, ?_⟩
    rw [← hlines b hb]
    exact hn
  · rintro ⟨b, hb, hn⟩
    refine ⟨b, hb, ?_⟩
    rw [← hlines b hb] at hn
    exact hn

theorem exists_block (h : Laid o qs l blocks) {c : Command} (hc : c ∈ commandsOf qs) :
    ∃ b ∈ blocks, b.origin = .command c := by
  rw [← List.mem_map, h.origins]
  exact List.mem_append_right _ (List.mem_map_of_mem hc)

theorem render_of_call (h : Laid o qs l blocks) {name : String} {k : Int}
    (hc : .call name k ∈ commandsOf qs) (hk : ¬ Numeral.Fits (Block.frameSize + k)) :
    l.render = .error .written := by
  obtain ⟨b, hb, horigin⟩ := h.exists_block hc
  obtain ⟨e, -, hcode⟩ := h.code_of_mem hb
  rw [horigin] at hcode
  have hnumber : (Block.frameSize + k : Int) ∈ numbersIn b.code := by
    rw [← Except.ok.inj hcode]
    exact List.mem_singleton_self _
  exact Listing.render_of_not_fits (h.mem_numbersIn.2 ⟨b, hb, hnumber⟩) hk

/-- The listing of readable sources can be written unless a call of theirs has so many arguments that
the size of its frame is too long a number. -/
theorem render_cases (h : Laid o qs l blocks) (hbase : ∀ n, o.stackBase = .number n → Numeral.Fits n)
    (hqs : ∀ c ∈ commandsOf qs, c.Writable) :
    l.render = .ok l.text ∨
    ∃ name k, .call name k ∈ commandsOf qs ∧ ¬ Numeral.Fits (Block.frameSize + k) := by
  by_cases hcall : ∃ name k, .call name k ∈ commandsOf qs ∧ ¬ Numeral.Fits (Block.frameSize + k)
  · exact .inr hcall
  · refine .inl (Listing.render_of_fits fun n hn => ?_)
    obtain ⟨b, hb, hn⟩ := h.mem_numbersIn.1 hn
    obtain ⟨e, rfl, hcode⟩ := h.code_of_mem hb
    have horigin : b.origin ∈ blocks.map Emitted.origin := List.mem_map_of_mem hb
    have hcommand : ∀ c, b.origin = .command c → c ∈ commandsOf qs := by
      intro c hc
      rw [h.origins, hc, List.mem_append] at horigin
      rcases horigin with hopening | hmem
      · split at hopening <;> simp at hopening
      · obtain ⟨c', hc', heq⟩ := List.mem_map.1 hmem
        cases heq
        exact hc'
    generalize b.origin = g at hcode hcommand
    rcases number_of_prepare hcode hn with hsmall | hconstant
    · exact hsmall.fits
    · cases g with
      | bootstrap =>
        rw [Origin.constant?] at hconstant
        split at hconstant
        · next hn =>
          cases hconstant
          exact hbase n hn
        · cases hconstant
      | command c =>
        cases c with
        | push s i =>
          rw [Segment.eq_of_constant? hconstant]
          exact (hqs _ (hcommand _ rfl)).2
        | pop s i =>
          rw [Segment.eq_of_constant? hconstant]
          exact (hqs _ (hcommand _ rfl)).2.2
        | call name k =>
          cases hconstant
          exact by_contra fun hk => hcall ⟨name, k, hcommand _ rfl, hk⟩
        | _ => cases hconstant

end Laid

end Build

end HackVm
