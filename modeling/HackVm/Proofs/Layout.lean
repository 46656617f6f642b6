import HackVm.Proofs.Clashes
import HackVm.Proofs.SymbolTable

/-!
# The layout of a listing

A run in which every order is carried out has one block for each order that asks for code. The code of a
block depends on its place alone: the file and the function it is in, and how many comparisons and calls
there are before it.

* `Emitter.Completes` : the runs without a fault;
* `Emitter.runAll_cases` : commands are emitted up to the first fault;
* `Emitter.emits_of_none` : an order that is carried out adds its code;
* `Emitter.code_of_place` : what the code of a command depends on;
* `Emitted.IsCode` : a block is the code for its place;
* `Emitter.isCode_trace` : every block of a run without faults is;
* `placesFrom`, `Emitter.place_trace` : the places of the commands of a file.
-/

namespace HackVm
open Instruction

namespace Emitter

/-! ## Runs without a fault -/

def Completes (e : Emitter) (orders : List Order) : Prop :=
  ∀ e' o, e.Meets orders e' o → (e'.run o).2 = none

theorem completes_nil (e : Emitter) : e.Completes [] := fun _ _ h => absurd h not_meets_nil

theorem completes_cons {e : Emitter} {o : Order} {orders : List Order} :
    e.Completes (o :: orders) ↔ (e.run o).2 = none ∧ (e.run o).1.Completes orders := by
  constructor
  · intro h
    exact ⟨h e o (meets_cons.2 (.inl ⟨rfl, rfl⟩)), fun e' o' h' => h e' o' (meets_cons.2 (.inr h'))⟩
  · rintro ⟨ho, horders⟩ e' o' h'
    rcases meets_cons.1 h' with ⟨rfl, rfl⟩ | h'
    · exact ho
    · exact horders e' o' h'

theorem completes_append {e : Emitter} {orders more : List Order} :
    e.Completes (orders ++ more) ↔ e.Completes orders ∧ (e.after orders).Completes more := by
  induction orders generalizing e with
  | nil => exact ⟨fun h => ⟨e.completes_nil, h⟩, fun h => h.2⟩
  | cons o orders ih =>
    rw [List.cons_append, completes_cons, completes_cons, ih, and_assoc]
    rfl

theorem runAll_of_none {e : Emitter} {c : Command} (h : (e.run (.command c)).2 = none) (cs : List Command) :
    e.runAll (c :: cs) = (e.run (.command c)).1.runAll cs := by
  rw [runAll]
  split
  · next hrun => rw [hrun]
  · next hrun =>
    rw [hrun] at h
    cases h

theorem runAll_of_some {e : Emitter} {c : Command} {f : Fault} (h : (e.run (.command c)).2 = some f)
    (cs : List Command) : (e.runAll (c :: cs)).2 = some f := by
  rw [runAll]
  split
  · next hrun =>
    rw [hrun] at h
    cases h
  · next hrun =>
    rw [hrun] at h
    exact h

/-- Commands are emitted in order, up to the first that faults. -/
theorem runAll_cases (e : Emitter) (cs : List Command) :
    (e.Completes (cs.map .command) ∧ e.runAll cs = (e.after (cs.map .command), none)) ∨
    ∃ before c more f, cs = before ++ c :: more ∧ e.Completes (before.map .command) ∧
      ((e.after (before.map .command)).run (.command c)).2 = some f ∧ (e.runAll cs).2 = some f := by
  induction cs generalizing e with
  | nil => exact .inl ⟨e.completes_nil, rfl⟩
  | cons c cs ih =>
    cases hfault : (e.run (.command c)).2 with
    | some f => exact .inr ⟨[], c, cs, f, rfl, e.completes_nil, hfault, runAll_of_some hfault cs⟩
    | none =>
      rw [runAll_of_none hfault]
      rcases ih (e.run (.command c)).1 with ⟨hrest, hok⟩ | ⟨before, c', more, f, rfl, hrest, hf⟩
      · exact .inl ⟨completes_cons.2 ⟨hfault, hrest⟩, hok⟩
      · exact .inr ⟨c :: before, c', more, f, rfl, completes_cons.2 ⟨hfault, hrest⟩, hf⟩

/-! ## The block of an order -/

theorem emitted?_eq_some {e : Emitter} {o : Order} {b : Emitted} (h : e.emitted? o = some b) :
    ∃ g code, o.origin? = some g ∧ (e.prepare g).2 = .ok code ∧
      b = ⟨g, e.file, e.function, e.annotation o.note, code⟩ := by
  unfold emitted? at h
  split at h
  · next g hg hrun =>
    split at h
    · next code hcode =>
      cases h
      exact ⟨g, code, hg, hcode, rfl⟩
    · cases h
  · cases h

/-- An order for code that is carried out adds the code, with its comment before it. -/
theorem emits_of_none {e : Emitter} {o : Order} {g : Origin} (hg : o.origin? = some g)
    (h : (e.run o).2 = none) : ∃ code, (e.prepare g).2 = .ok code ∧
      e.Emits ⟨g, e.file, e.function, e.annotation o.note, code⟩ (e.run o).1 := by
  rcases e.run_cases o with ⟨hnone, -⟩ | ⟨b, hb, hemits⟩
  · obtain ⟨b, hb⟩ := exists_emitted_iff.2 ⟨g, hg, h⟩
    rw [hnone] at hb
    cases hb
  · obtain ⟨g', code, hg', hcode, rfl⟩ := emitted?_eq_some hb
    obtain rfl : g = g' := Option.some.inj (hg.symm.trans hg')
    exact ⟨code, hcode, hemits⟩

end Emitter

def Origin.note : Origin → String
  | .bootstrap => "bootstrap"
  | .command c => c.text

/-- The order gets the comment that goes with its code. -/
def Order.Noted (o : Order) : Prop := ∀ g, o.origin? = some g → o.note = some g.note

namespace Emitted

def place (b : Emitted) : Origin × String × Option String := (b.origin, b.file, b.function)

/-- The block is the code for its origin in its place, behind this many comparisons and calls. -/
structure IsCode (options : Options) (comparisons calls : Nat) (b : Emitted) : Prop where
  note : b.note = if options.annotate then [.comment b.origin.note] else []
  code : (({ options, file := b.file, function := b.function, comparisons, calls } : Emitter).prepare
    b.origin).2 = .ok b.code

end Emitted

namespace Emitter

theorem withSegment_of_no_labels {e : Emitter} (h : e.labels = []) (s : Segment) (i : Int)
    (code : Except Fault (List Instruction)) : (e.withSegment s i code).2 = code := by
  cases code with
  | error f => rfl
  | ok code =>
    unfold withSegment useStatic
    by_cases hs : s = .static
    · simp [hs, h]
    · simp [hs]

/-- The code of a command depends on where the emitter is and on its numbers. The symbols in use decide
whether there is code, but not what it is. -/
theorem code_of_place {e e' : Emitter} {c : Command} {code : List Instruction}
    (h : (e.code c).2 = .ok code) (hlabels : e'.labels = []) (hfile : e'.file = e.file)
    (hfunction : e'.function = e.function) (hcomparisons : e'.comparisons = e.comparisons)
    (hcalls : e'.calls = e.calls) : (e'.code c).2 = .ok code := by
  rw [← h]
  cases c with
  | push s i =>
    show (e'.withSegment s i (Block.push s i e'.file)).2 = _
    rw [h, withSegment_of_no_labels hlabels, hfile]
    exact withSegment_eq_ok h
  | pop s i =>
    show (e'.withSegment s i (Block.pop s i e'.file)).2 = _
    rw [h, withSegment_of_no_labels hlabels, hfile]
    exact withSegment_eq_ok h
  | operate o =>
    cases o with
    | unary u => rfl
    | binary b => rfl
    | compare c => simp only [Emitter.code, operatorCode, nextComparison, hcomparisons]
  | label n => simp only [Emitter.code, hfile, hfunction]
  | goto n => simp only [Emitter.code, hfile, hfunction]
  | ifGoto n => simp only [Emitter.code, hfile, hfunction]
  | function n k => rfl
  | call n k => simp only [Emitter.code, nextCall, hcalls]
  | ret => rfl

theorem prepare_of_place {e : Emitter} {g : Origin} {code : List Instruction}
    (h : (e.prepare g).2 = .ok code) :
    (({ options := e.options, file := e.file, function := e.function, comparisons := e.comparisons,
        calls := e.calls } : Emitter).prepare g).2 = .ok code := by
  cases g with
  | bootstrap => exact h
  | command c => exact code_of_place h rfl rfl rfl rfl rfl

theorem isCode_of_emitted {e : Emitter} {o : Order} {b : Emitted} (h : e.emitted? o = some b)
    (ho : o.Noted) : b.IsCode e.options e.comparisons e.calls := by
  obtain ⟨g, code, hg, hcode, rfl⟩ := emitted?_eq_some h
  refine ⟨?_, prepare_of_place hcode⟩
  show e.annotation o.note = _
  rw [ho g hg]
  rfl

/-! ## The blocks of a run -/

/-- An order for code that is carried out adds one block. -/
theorem trace_cons {e : Emitter} {o : Order} {g : Origin} (hg : o.origin? = some g)
    (h : (e.run o).2 = none) (orders : List Order) :
    ∃ b, e.emitted? o = some b ∧ b.place = (g, e.file, e.function) ∧
      e.trace (o :: orders) = b :: (e.run o).1.trace orders := by
  obtain ⟨b, hb⟩ := exists_emitted_iff.2 ⟨g, hg, h⟩
  refine ⟨b, hb, ?_, ?_⟩
  · obtain ⟨g', code, hg', -, rfl⟩ := emitted?_eq_some hb
    obtain rfl : g = g' := Option.some.inj (hg.symm.trans hg')
    rfl
  · rw [trace, hb]
    rfl

theorem trace_of_no_code {e : Emitter} {o : Order} (h : o.origin? = none) (orders : List Order) :
    e.trace (o :: orders) = (e.run o).1.trace orders := by
  have hnone : e.emitted? o = none := by
    unfold emitted?
    rw [h]
  rw [trace, hnone]
  rfl

theorem trace_append (e : Emitter) (orders more : List Order) :
    e.trace (orders ++ more) = e.trace orders ++ (e.after orders).trace more := by
  induction orders generalizing e with
  | nil => rfl
  | cons o orders ih =>
    rw [List.cons_append, trace, trace, ih, List.append_assoc]
    rfl

/-- Every block is the code for its place, with the numbers of the comparisons and calls before it. -/
theorem isCode_trace {orders : List Order} (ho : ∀ o ∈ orders, o.Noted) {e : Emitter}
    (h : e.Completes orders) {before more : List Emitted} {b : Emitted}
    (hb : e.trace orders = before ++ b :: more) :
    b.IsCode e.options (e.comparisons + before.countP (·.origin.compares))
      (e.calls + before.countP (·.origin.calls)) := by
  induction orders generalizing e before with
  | nil => exact absurd hb (by cases before <;> exact nofun)
  | cons o orders ih =>
    rw [List.forall_mem_cons] at ho
    rw [completes_cons] at h
    cases hg : o.origin? with
    | none =>
      rw [trace_of_no_code hg] at hb
      have hrest := ih ho.2 h.2 hb
      rw [options_run, comparisons_run, calls_run, Order.compares, Order.calls, hg] at hrest
      exact hrest
    | some g =>
      obtain ⟨b', hb', hplace, htrace⟩ := trace_cons hg h.1 orders
      obtain rfl : b'.origin = g := congrArg Prod.fst hplace
      rw [htrace] at hb
      cases before with
      | nil =>
        obtain ⟨rfl, -⟩ := List.cons.inj hb
        exact isCode_of_emitted hb' ho.1
      | cons b'' before =>
        obtain ⟨rfl, htail⟩ := List.cons.inj hb
        have hrest := ih ho.2 h.2 htail
        rw [options_run, (run_moved hg).comparisons, (run_moved hg).calls] at hrest
        rw [List.countP_cons, List.countP_cons, Nat.add_comm (before.countP _),
          Nat.add_comm (before.countP _), ← Nat.add_assoc, ← Nat.add_assoc]
        exact hrest

end Emitter

/-- The places of commands in a file, from one in `function` on. -/
def placesFrom (file : String) : Option String → List Command → List (Origin × String × Option String)
  | _, [] => []
  | function, c :: cs =>
    (.command c, file, function) :: placesFrom file ((Origin.command c).functionFrom function) cs

theorem Emitter.place_trace {cs : List Command} {e : Emitter} (h : e.Completes (cs.map .command)) :
    (e.trace (cs.map .command)).map Emitted.place = placesFrom e.file e.function cs := by
  induction cs generalizing e with
  | nil => rfl
  | cons c cs ih =>
    rw [List.map_cons, completes_cons] at h
    obtain ⟨b, -, hplace, htrace⟩ := trace_cons (o := .command c) rfl h.1 (cs.map .command)
    have hmoved : e.Moved (.command c) (e.run (.command c)).1 := run_moved rfl
    rw [List.map_cons, htrace, List.map_cons, hplace, ih h.2, hmoved.file, hmoved.function]
    rfl

end HackVm
