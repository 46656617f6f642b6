import HackVm.Proofs.Emission
import HackVm.Proofs.SymbolNames

/-!
# The place and the numbers of an emitter

Beside its listing an emitter keeps the file and the function it is in, and the numbers that the labels
of the next comparison and of the next call get. An order moves these before its code can fault, so a
fault leaves them moved.

* `Order.compares`, `Order.calls`, `Order.functionFrom` : what an order moves, if anything;
* `Emitter.Stays` : what a fault leaves of an emitter;
* `Emitter.ComparesAs`, `Emitter.CallsAs` : the number that an order's code gets;
* `Emitter.counters_after` : after every run the numbers are those of the orders so far, and no two
  orders get the same.
-/

namespace HackVm
open Instruction

/-! ## What an order moves -/

def Origin.compares : Origin → Bool
  | .command (.operate (.compare _)) => true
  | _ => false

/-- The bootstrap calls the entry function. -/
def Origin.calls : Origin → Bool
  | .bootstrap => true
  | .command (.call ..) => true
  | _ => false

def Origin.functionFrom (function : Option String) : Origin → Option String
  | .command (.function n _) => some n
  | _ => function

def Order.compares (o : Order) : Bool := o.origin?.any Origin.compares

def Order.calls (o : Order) : Bool := o.origin?.any Origin.calls

/-- The function that an emitter in `function` is in when an order for code has been followed. -/
def Order.functionFrom (function : Option String) (o : Order) : Option String :=
  match o.origin? with
  | some g => g.functionFrom function
  | none => function

namespace Emitter

/-- How an order for `g` moves an emitter. -/
structure Moved (e : Emitter) (g : Origin) (e' : Emitter) : Prop where
  file : e'.file = e.file
  function : e'.function = g.functionFrom e.function
  comparisons : e'.comparisons = e.comparisons + if g.compares then 1 else 0
  calls : e'.calls = e.calls + if g.calls then 1 else 0

theorem Moved.withSegment {e : Emitter} {g : Origin} {s : Segment} {i : Int}
    {code : Except Fault (List Instruction)} (h : Moved e g e) :
    Moved e g (e.withSegment s i code).1 := by
  rcases e.withSegment_cases s i code with ⟨f, hf⟩ | ⟨c, -, -, hf⟩ | ⟨c, -, -, -, hf⟩ <;> rw [hf]
  · exact h
  · exact h
  · exact ⟨h.file, h.function, h.comparisons, h.calls⟩

theorem prepare_moved (e : Emitter) (g : Origin) : Moved e g (e.prepare g).1 := by
  cases g with
  | bootstrap => exact ⟨rfl, rfl, rfl, rfl⟩
  | command c =>
    cases c with
    | push s i => exact Moved.withSegment ⟨rfl, rfl, rfl, rfl⟩
    | pop s i => exact Moved.withSegment ⟨rfl, rfl, rfl, rfl⟩
    | operate o => cases o <;> exact ⟨rfl, rfl, rfl, rfl⟩
    | _ => exact ⟨rfl, rfl, rfl, rfl⟩

theorem Moved.emit {e e' : Emitter} {g : Origin} (h : Moved e g e') (note : Option String)
    (code : List Instruction) : Moved e g (e'.emit note code).1 := by
  rcases e'.emit_cases note code with ⟨f, hf⟩ | ⟨-, hf⟩ <;> rw [hf]
  · exact h
  · exact ⟨h.file, h.function, h.comparisons, h.calls⟩

theorem run_moved {e : Emitter} {o : Order} {g : Origin} (h : o.origin? = some g) :
    Moved e g (e.run o).1 := by
  rw [run_of_origin h]
  have hmoved := e.prepare_moved g
  cases hp : e.prepare g with
  | mk e' code =>
    rw [hp] at hmoved
    cases code with
    | error f => exact hmoved
    | ok code =>
      by_cases hfits : ∀ n ∈ e.numbersFor o g, Numeral.Fits n
      · rw [emitCode_of_fits hfits]
        exact hmoved.emit o.note code
      · rw [emitCode_of_overlong hfits]
        exact hmoved

/-- An order that asks for no code either enters a file or does nothing. -/
theorem run_of_no_code {e : Emitter} {o : Order} (h : o.origin? = none) :
    (∃ file, o = .enter file) ∨ (e.run o).1 = e := by
  rcases no_code_cases h with hfile | ⟨f, hf⟩
  · exact .inl hfile
  · exact .inr (by rw [hf e])

theorem comparisons_run (e : Emitter) (o : Order) :
    (e.run o).1.comparisons = e.comparisons + if o.compares then 1 else 0 := by
  unfold Order.compares
  cases hg : o.origin? with
  | some g => exact (run_moved hg).comparisons
  | none =>
    rcases run_of_no_code (e := e) hg with ⟨file, rfl⟩ | h
    · rfl
    · rw [h]
      rfl

theorem calls_run (e : Emitter) (o : Order) :
    (e.run o).1.calls = e.calls + if o.calls then 1 else 0 := by
  unfold Order.calls
  cases hg : o.origin? with
  | some g => exact (run_moved hg).calls
  | none =>
    rcases run_of_no_code (e := e) hg with ⟨file, rfl⟩ | h
    · rfl
    · rw [h]
      rfl

/-! ## Runs -/

theorem comparisons_after (e : Emitter) (orders : List Order) :
    (e.after orders).comparisons = e.comparisons + orders.countP Order.compares := by
  induction orders generalizing e with
  | nil => rfl
  | cons o orders ih =>
    show ((e.run o).1.after orders).comparisons = _
    rw [ih, comparisons_run, List.countP_cons]
    omega

theorem calls_after (e : Emitter) (orders : List Order) :
    (e.after orders).calls = e.calls + orders.countP Order.calls := by
  induction orders generalizing e with
  | nil => rfl
  | cons o orders ih =>
    show ((e.run o).1.after orders).calls = _
    rw [ih, calls_run, List.countP_cons]
    omega

theorem after_cons (e : Emitter) (o : Order) (orders : List Order) :
    e.after (o :: orders) = (e.run o).1.after orders := rfl

/-- A comparison moves the number past its own for good. -/
theorem comparisons_lt_after {e : Emitter} {o : Order} (h : o.compares = true) (between : List Order) :
    e.comparisons < (e.after (o :: between)).comparisons := by
  rw [comparisons_after, List.countP_cons, if_pos h]
  omega

theorem calls_lt_after {e : Emitter} {o : Order} (h : o.calls = true) (between : List Order) :
    e.calls < (e.after (o :: between)).calls := by
  rw [calls_after, List.countP_cons, if_pos h]
  omega

/-! ## Faults -/

/-- What a fault leaves of an emitter: its listing, its symbols and its file as they were, the next
number used up, and the function entered. -/
structure Stays (e : Emitter) (o : Order) (e' : Emitter) : Prop where
  listing : e'.listing = e.listing
  labels : e'.labels = e.labels
  statics : e'.statics = e.statics
  file : e'.file = e.file
  comparisons : e'.comparisons = e.comparisons + if o.compares then 1 else 0
  calls : e'.calls = e.calls + if o.calls then 1 else 0
  function : e'.function = o.functionFrom e.function

theorem stays_of_fault {e : Emitter} {o : Order} {f : Fault} (h : (e.run o).2 = some f) :
    Stays e o (e.run o).1 := by
  have hnone : e.emitted? o = none := by
    unfold emitted?
    rw [h]
    cases o.origin? <;> rfl
  have halike : Alike e (e.run o).1 := by
    rcases e.run_cases o with ⟨-, ha⟩ | ⟨b, hb, -⟩
    · exact ha
    · rw [hnone] at hb
      cases hb
  have hplace : (e.run o).1.file = e.file ∧ (e.run o).1.function = o.functionFrom e.function := by
    unfold Order.functionFrom
    cases hg : o.origin? with
    | some g => exact ⟨(run_moved hg).file, (run_moved hg).function⟩
    | none =>
      rcases run_of_no_code (e := e) hg with ⟨file, rfl⟩ | hsame
      · cases h
      · rw [hsame]
        exact ⟨rfl, rfl⟩
  exact ⟨halike.listing, halike.labels, halike.statics, hplace.1, e.comparisons_run o, e.calls_run o,
    hplace.2⟩

/-! ## Numbers -/

/-- The code that `e` has for the comparison `o` gets the number `n`. -/
def ComparesAs (e : Emitter) (o : Order) (n : Int) : Prop :=
  ∃ c, o.origin? = some (.command (.operate (.compare c))) ∧
    (e.prepare (.command (.operate (.compare c)))).2 = .ok (Block.compare c (some n))

/-- The code that `e` has for the call or the bootstrap `o` gets the number `n`. -/
def CallsAs (e : Emitter) (o : Order) (n : Int) : Prop :=
  (∃ f k, o.origin? = some (.command (.call f k)) ∧
    (e.prepare (.command (.call f k))).2 = .ok (Block.call f k (some n))) ∨
  (o.origin? = some .bootstrap ∧
    (e.prepare .bootstrap).2 = .ok (Block.bootstrap e.options.stackBase e.options.entry (some n)))

theorem compare_injective {c : Comparison} {m n : Int}
    (h : Block.compare c (some m) = Block.compare c (some n)) : m = n := by
  have hnames := congrArg labelNames h
  rw [labelNames_compare, labelNames_compare] at hnames
  exact Naming.whenTrue_injective (List.cons.inj hnames).1

theorem call_injective {f : String} {k m n : Int}
    (h : Block.call f k (some m) = Block.call f k (some n)) : m = n := by
  have hnames : [Naming.returnTo f (some m)] = [Naming.returnTo f (some n)] := congrArg labelNames h
  exact Naming.returnTo_injective (List.cons.inj hnames).1

theorem comparesAs_iff {e : Emitter} {o : Order} {n : Int} :
    e.ComparesAs o n ↔ o.compares = true ∧ n = e.comparisons := by
  constructor
  · rintro ⟨c, ho, hcode⟩
    refine ⟨by rw [Order.compares, ho]; rfl, ?_⟩
    exact (compare_injective (Except.ok.inj hcode)).symm
  · rintro ⟨ho, rfl⟩
    obtain ⟨g, hg, hc⟩ := (Option.any_eq_true _ _).1 ho
    unfold Origin.compares at hc
    split at hc
    · exact ⟨_, hg, rfl⟩
    · cases hc

theorem callsAs_iff {e : Emitter} {o : Order} {n : Int} :
    e.CallsAs o n ↔ o.calls = true ∧ n = e.calls := by
  constructor
  · rintro (⟨f, k, ho, hcode⟩ | ⟨ho, hcode⟩)
    · refine ⟨by rw [Order.calls, ho]; rfl, ?_⟩
      exact (call_injective (Except.ok.inj hcode)).symm
    · refine ⟨by rw [Order.calls, ho]; rfl, ?_⟩
      exact (call_injective (List.append_cancel_left (Except.ok.inj hcode))).symm
  · rintro ⟨ho, rfl⟩
    obtain ⟨g, hg, hc⟩ := (Option.any_eq_true _ _).1 ho
    unfold Origin.calls at hc
    split at hc
    · exact .inr ⟨hg, rfl⟩
    · exact .inl ⟨_, _, hg, rfl⟩
    · cases hc

/-- Faults and numbers in every run from a fresh emitter. An order that faults leaves the listing, the
symbols and the file as they were, and moves the numbers and the function as it would have done anyway.
So the numbers count the comparisons and the calls so far, whether they faulted or not, and no two
orders of a run get the same number. -/
theorem counters_after (options : Options) (orders : List Order) :
    let e₀ : Emitter := { options := options }
    let e := e₀.after orders
    (∀ o f, (e.run o).2 = some f → Stays e o (e.run o).1) ∧
    e.comparisons = orders.countP Order.compares ∧
    e.calls = orders.countP Order.calls ∧
    ∀ before o between o' more, orders = before ++ o :: (between ++ o' :: more) →
      (∀ m n, (e₀.after before).ComparesAs o m →
        (e₀.after (before ++ o :: between)).ComparesAs o' n → m ≠ n) ∧
      (∀ m n, (e₀.after before).CallsAs o m →
        (e₀.after (before ++ o :: between)).CallsAs o' n → m ≠ n) := by
  intro e₀ e
  refine ⟨fun o f h => stays_of_fault h, ?_, ?_, ?_⟩
  · exact (e₀.comparisons_after orders).trans (Nat.zero_add _)
  · exact (e₀.calls_after orders).trans (Nat.zero_add _)
  · intro before o between o' more _
    rw [after_append]
    constructor
    · intro m n hm hn
      rw [comparesAs_iff] at hm hn
      have hlt := comparisons_lt_after (e := e₀.after before) hm.1 between
      omega
    · intro m n hm hn
      rw [callsAs_iff] at hm hn
      have hlt := calls_lt_after (e := e₀.after before) hm.1 between
      omega

def takenLabel : List Order :=
  [.enter "Foo", .command (.function "Foo" 0), .command (.label "ret.0")]

/-- A call whose return label has been taken leaves no trace but its number. -/
theorem counters_after_takenLabel :
    let e := ({} : Emitter).after takenLabel
    let r := e.run (.command (.call "Foo" 0))
    r.2 = some (.labelTwice "Foo$ret.0") ∧ r.1.listing = e.listing ∧ r.1.calls = 1 := by
  intro e r
  have hfault : r.2 = some (.labelTwice "Foo$ret.0") := by decide
  have hstays : Stays e (.command (.call "Foo" 0)) r.1 :=
    (counters_after {} takenLabel).1 _ _ hfault
  exact ⟨hfault, hstays.listing, hstays.calls⟩

end Emitter

end HackVm
