import HackVm.Emitter
import HackVm.Proofs.Outcome
import Mathlib.Data.List.Nodup

/-!
# Runs of an emitter

An emitter is given orders one after the other; some of them end in a fault, and the next ones still
follow.

* `Origin` : what a block of code is emitted for;
* `Emitted` : a block as it stands in the listing;
* `Emitter.after`, `Emitter.trace` : the emitter after a run, and the blocks emitted in it;
* `Emitter.run_cases` : everything that an order can do to the listing and its symbols;
* `Emitter.listing_prefix_after` : a run only adds to the end of the listing.
-/

namespace HackVm
open Instruction

/-! ## Blocks -/

inductive Origin where
  | bootstrap
  | command (c : Command)
deriving DecidableEq

/-- The static symbol that an access in `file` refers to. -/
def Origin.static? (file : String) : Origin → Option String
  | .command (.push .static i) => some (Naming.static file i)
  | .command (.pop .static i) => some (Naming.static file i)
  | _ => none

/-- The number of the static variable that an access refers to. -/
def Origin.indices : Origin → List Int
  | .command (.push .static i) => [i]
  | .command (.pop .static i) => [i]
  | _ => []

structure Emitted where
  origin : Origin
  /-- The file and the function that the emitter was in. -/
  file : String
  function : Option String
  /-- The comment before the code. -/
  note : List Instruction
  code : List Instruction

namespace Emitted

def lines (b : Emitted) : List Instruction := b.note ++ b.code

def static? (b : Emitted) : Option String := b.origin.static? b.file

end Emitted

def linesOf (blocks : List Emitted) : List Instruction := blocks.flatMap Emitted.lines

theorem mem_labelNames_linesOf {blocks : List Emitted} {b : Emitted} {n : String} (hb : b ∈ blocks)
    (hn : n ∈ labelNames b.code) : n ∈ labelNames (linesOf blocks) := by
  obtain ⟨i, hi, hd⟩ := List.mem_filterMap.1 hn
  refine List.mem_filterMap.2 ⟨i, List.mem_flatMap.2 ⟨b, hb, ?_⟩, hd⟩
  exact List.mem_append_right _ hi

/-! ## Runs -/

/-- What an order emits code for, if anything. -/
def Order.origin? : Order → Option Origin
  | .enter _ => none
  | .bootstrap => some .bootstrap
  | .command c => some (.command c)
  | .bare c => some (.command c)
  | .access kind segment index => match Emitter.access kind segment index with
    | .ok c => some (.command c)
    | .error _ => none
  | .operator word => match Operator.read word with
    | .ok o => some (.command (.operate o))
    | .error _ => none
  | .foreign _ => none

def Order.note : Order → Option String
  | .bootstrap => some "bootstrap"
  | .command c => some c.text
  | _ => none

def Order.noted : Order → List Int
  | .command c => c.numbers
  | _ => []

namespace Emitter

/-- The code for an origin, and the emitter with the numbers, the function and the static symbols
that go with it. -/
def prepare (e : Emitter) : Origin → Emitter × Except Fault (List Instruction)
  | .bootstrap =>
    (e.nextCall.1, .ok (Block.bootstrap e.options.stackBase e.options.entry (some e.calls)))
  | .command c => e.code c

/-- The numbers in the labels that the code for an origin defines. -/
def ordinalsFor (e : Emitter) : Origin → List Int
  | .bootstrap => [e.calls]
  | .command c => e.ordinals c

/-- The numbers in the comment and in the labels of the code that an order for `g` adds. -/
def numbersFor (e : Emitter) (o : Order) (g : Origin) : List Int := o.noted ++ e.ordinalsFor g

def emitted? (e : Emitter) (o : Order) : Option Emitted :=
  match o.origin?, (e.run o).2 with
  | some g, none => match (e.prepare g).2 with
    | .ok code => some ⟨g, e.file, e.function, e.annotation o.note, code⟩
    | .error _ => none
  | _, _ => none

/-- The emitter after a run of orders, whether they fault or not. -/
def after (e : Emitter) (orders : List Order) : Emitter :=
  orders.foldl (fun e o => (e.run o).1) e

def trace (e : Emitter) : List Order → List Emitted
  | [] => []
  | o :: orders => (e.emitted? o).toList ++ (e.run o).1.trace orders

/-! ## The code of an origin -/

/-- The static symbols once one more may be in use. -/
def staticsWith (e : Emitter) : Option String → List String
  | some name => e.statics.insert name
  | none => e.statics

theorem mem_staticsWith (e : Emitter) (name? : Option String) (n : String) :
    n ∈ e.staticsWith name? ↔ n ∈ e.statics ∨ name? = some n := by
  cases name? with
  | none => simp [staticsWith]
  | some name =>
    rw [staticsWith, List.mem_insert_iff]
    constructor
    · rintro (rfl | h)
      · exact .inr rfl
      · exact .inl h
    · rintro (h | h)
      · exact .inr h
      · exact .inl (Option.some.inj h).symm

/-- Two emitters with the same listing and the same symbols, which may be at different numbers and in
different places. -/
structure Alike (e e' : Emitter) : Prop where
  options : e'.options = e.options
  listing : e'.listing = e.listing
  labels : e'.labels = e.labels
  statics : e'.statics = e.statics

theorem Alike.refl (e : Emitter) : Alike e e := ⟨rfl, rfl, rfl, rfl⟩

/-- What it means that `e` has `code` for an origin, which leaves it as `e'`. -/
structure Prepares (e : Emitter) (g : Origin) (e' : Emitter) (code : List Instruction) : Prop where
  options : e'.options = e.options
  listing : e'.listing = e.listing
  labels : e'.labels = e.labels
  statics : e'.statics = e.staticsWith (g.static? e.file)
  notLabel : ∀ n, g.static? e.file = some n → n ∉ e.labels ∧ symbol n ∈ code ∧ labelNames code = []
  nodup : (labelNames code).Nodup

theorem Prepares.alike {e e' : Emitter} {g : Origin} {code : List Instruction} (h : Prepares e g e' code)
    (hs : g.static? e.file = none) : Alike e e' := by
  refine ⟨h.options, h.listing, h.labels, ?_⟩
  rw [h.statics, hs]
  rfl

theorem withSegment_cases (e : Emitter) (s : Segment) (i : Int)
    (code : Except Fault (List Instruction)) :
    (∃ f, e.withSegment s i code = (e, .error f)) ∨
    (∃ c, code = .ok c ∧ s ≠ .static ∧ e.withSegment s i code = (e, .ok c)) ∨
    (∃ c, code = .ok c ∧ s = .static ∧ Naming.static e.file i ∉ e.labels ∧
      e.withSegment s i code =
        ({ e with statics := e.statics.insert (Naming.static e.file i) }, .ok c)) := by
  unfold withSegment
  cases code with
  | error f => exact .inl ⟨f, rfl⟩
  | ok c =>
    by_cases hs : s = .static
    · by_cases hl : Naming.static e.file i ∈ e.labels
      · exact .inl ⟨.staticIsLabel (Naming.static e.file i), by simp [hs, useStatic, hl]⟩
      · exact .inr (.inr ⟨c, rfl, hs, hl, by simp [hs, useStatic, hl]⟩)
    · exact .inr (.inl ⟨c, rfl, hs, by simp [hs]⟩)

theorem withSegment_eq_ok {e : Emitter} {s : Segment} {i : Int}
    {code : Except Fault (List Instruction)} {c : List Instruction}
    (h : (e.withSegment s i code).2 = .ok c) : code = .ok c := by
  rcases e.withSegment_cases s i code with ⟨f, hf⟩ | ⟨c', hc, -, hf⟩ | ⟨c', hc, -, -, hf⟩
  · rw [hf] at h
    cases h
  · rw [hf] at h
    rw [hc]
    exact h
  · rw [hf] at h
    rw [hc]
    exact h

/-- Loading takes a word from the cell of an operand, or from behind a base cell. -/
theorem load_forms {s : Segment} {i : Int} {file : String} {c : List Instruction}
    (h : Block.load s i file = .ok c) :
    (∃ o comp, c = [.address o, assign "D" comp]) ∨
    ∃ b : Base, c = [symbol b.cell, assign "D" "M", number i, assign "A" "D+A", assign "D" "M"] := by
  unfold Block.load at h
  cases s with
  | constant => cases h; exact .inl ⟨_, _, rfl⟩
  | based b => cases h; exact .inr ⟨b, rfl⟩
  | static =>
    obtain ⟨n, -, hc⟩ := bind_eq_ok.1 h
    cases hc
    exact .inl ⟨_, _, rfl⟩
  | pointer =>
    obtain ⟨n, -, hc⟩ := bind_eq_ok.1 h
    cases hc
    exact .inl ⟨_, _, rfl⟩
  | temp =>
    obtain ⟨n, -, hc⟩ := bind_eq_ok.1 h
    cases hc
    exact .inl ⟨_, _, rfl⟩

/-- Storing puts a word into the cell of an operand, or behind a base cell by way of `R13`. -/
theorem pop_forms {s : Segment} {i : Int} {file : String} {c : List Instruction}
    (h : Block.pop s i file = .ok c) :
    (∃ o, c = Block.popD ++ [.address o, assign "M" "D"]) ∨
    ∃ b : Base, c = [symbol b.cell, assign "D" "M", number i, assign "D" "D+A", symbol "R13",
      assign "M" "D"] ++ Block.popD ++ [symbol "R13", assign "A" "M", assign "M" "D"] := by
  unfold Block.pop at h
  cases s with
  | constant => cases h
  | based b => cases h; exact .inr ⟨b, rfl⟩
  | static =>
    obtain ⟨n, -, hc⟩ := bind_eq_ok.1 h
    cases hc
    exact .inl ⟨_, rfl⟩
  | pointer =>
    obtain ⟨n, -, hc⟩ := bind_eq_ok.1 h
    cases hc
    exact .inl ⟨_, rfl⟩
  | temp =>
    obtain ⟨n, -, hc⟩ := bind_eq_ok.1 h
    cases hc
    exact .inl ⟨_, rfl⟩

theorem labelNames_push {s : Segment} {i : Int} {file : String} {c : List Instruction}
    (h : Block.push s i file = .ok c) : labelNames c = [] := by
  obtain ⟨l, hl, hc⟩ := bind_eq_ok.1 h
  cases hc
  rcases load_forms hl with ⟨o, comp, rfl⟩ | ⟨b, rfl⟩ <;> rfl

theorem labelNames_pop {s : Segment} {i : Int} {file : String} {c : List Instruction}
    (h : Block.pop s i file = .ok c) : labelNames c = [] := by
  rcases pop_forms h with ⟨o, rfl⟩ | ⟨b, rfl⟩ <;> rfl

theorem whenTrue_ne_whenDone (k l : Option Int) : Naming.whenTrue k ≠ Naming.whenDone l := by
  intro h
  have := congrArg (fun s => s.toList.take 5) h
  simp [Naming.whenTrue, Naming.whenDone] at this

theorem labelNames_compare (c : Comparison) (k : Option Int) :
    labelNames (Block.compare c k) = [Naming.whenTrue k, Naming.whenDone k] := rfl

theorem labelNames_function (name : String) (locals : Int) :
    labelNames (Block.function name locals) = [name] := by
  have hzeros : ∀ k : Nat, labelNames (List.replicate k Block.pushZero).flatten = [] := by
    intro k
    induction k with
    | zero => rfl
    | succ k ih => rw [List.replicate_succ, List.flatten_cons, labelNames_append, ih]; rfl
  exact congrArg (name :: ·) (hzeros locals.toNat)

theorem Alike.prepares {e e' : Emitter} {g : Origin} {code : List Instruction} (h : Alike e e')
    (hg : g.static? e.file = none) (hn : (labelNames code).Nodup) : Prepares e g e' code :=
  ⟨h.options, h.listing, h.labels, by rw [hg]; exact h.statics, fun n hs => by simp [hg] at hs, hn⟩

/-- An access either faults, or has code without labels that refers to its static variable. -/
theorem access_cases (e : Emitter) (g : Origin) (s : Segment) (i : Int)
    {code : Except Fault (List Instruction)} (hg : e.prepare g = e.withSegment s i code)
    (hstatic : s = .static → g.static? e.file = some (Naming.static e.file i) ∧
      ∀ c, code = .ok c → symbol (Naming.static e.file i) ∈ c)
    (hother : s ≠ .static → g.static? e.file = none)
    (hnone : ∀ c, code = .ok c → labelNames c = []) :
    (∃ e' f, e.prepare g = (e', .error f) ∧ Alike e e') ∨
    (∃ e' c, e.prepare g = (e', .ok c) ∧ Prepares e g e' c) := by
  rcases e.withSegment_cases s i code with ⟨f, h⟩ | ⟨c, hc, hs, h⟩ | ⟨c, hc, hs, hl, h⟩
  · exact .inl ⟨e, f, hg.trans h, .refl e⟩
  · refine .inr ⟨e, c, hg.trans h, (Alike.refl e).prepares (hother hs) ?_⟩
    rw [hnone c hc]
    exact List.nodup_nil
  · obtain ⟨hname, hsym⟩ := hstatic hs
    refine .inr ⟨_, c, hg.trans h, rfl, rfl, rfl, by rw [hname]; rfl, ?_, ?_⟩
    · intro n hn
      obtain rfl : Naming.static e.file i = n := Option.some.inj (hname.symm.trans hn)
      exact ⟨hl, hsym c hc, hnone c hc⟩
    · rw [hnone c hc]
      exact List.nodup_nil

/-- Preparing code keeps the listing and the labels. It adds a static symbol only for code that
refers to it, and that code has no labels. -/
theorem prepare_cases (e : Emitter) (g : Origin) :
    (∃ e' f, e.prepare g = (e', .error f) ∧ Alike e e') ∨
    (∃ e' code, e.prepare g = (e', .ok code) ∧ Prepares e g e' code) := by
  cases g with
  | bootstrap =>
    exact .inr ⟨_, _, rfl, Alike.prepares ⟨rfl, rfl, rfl, rfl⟩ rfl (List.nodup_singleton _)⟩
  | command c =>
    cases c with
    | push s i =>
      refine e.access_cases _ s i rfl ?_ ?_ fun c hc => labelNames_push hc
      · rintro rfl
        refine ⟨rfl, fun c hc => ?_⟩
        rw [(Block.push_static_eq_ok.1 hc).2]
        exact List.mem_cons_self
      · intro hs
        cases s <;> first | rfl | exact absurd rfl hs
    | pop s i =>
      refine e.access_cases _ s i rfl ?_ ?_ fun c hc => labelNames_pop hc
      · rintro rfl
        refine ⟨rfl, fun c hc => ?_⟩
        rw [(Block.pop_static_eq_ok.1 hc).2]
        exact List.mem_append_right _ List.mem_cons_self
      · intro hs
        cases s <;> first | rfl | exact absurd rfl hs
    | operate o =>
      cases o with
      | unary u => exact .inr ⟨e, _, rfl, (Alike.refl e).prepares rfl List.nodup_nil⟩
      | binary b => exact .inr ⟨e, _, rfl, (Alike.refl e).prepares rfl List.nodup_nil⟩
      | compare c =>
        refine .inr ⟨_, _, rfl, Alike.prepares ⟨rfl, rfl, rfl, rfl⟩ rfl ?_⟩
        rw [labelNames_compare]
        simpa using whenTrue_ne_whenDone _ _
    | label n => exact .inr ⟨e, _, rfl, (Alike.refl e).prepares rfl (List.nodup_singleton _)⟩
    | goto n => exact .inr ⟨e, _, rfl, (Alike.refl e).prepares rfl List.nodup_nil⟩
    | ifGoto n => exact .inr ⟨e, _, rfl, (Alike.refl e).prepares rfl List.nodup_nil⟩
    | function n k =>
      refine .inr ⟨_, _, rfl, Alike.prepares ⟨rfl, rfl, rfl, rfl⟩ rfl ?_⟩
      rw [labelNames_function]
      exact List.nodup_singleton n
    | call n k =>
      exact .inr ⟨_, _, rfl, Alike.prepares ⟨rfl, rfl, rfl, rfl⟩ rfl (List.nodup_singleton _)⟩
    | ret => exact .inr ⟨e, _, rfl, (Alike.refl e).prepares rfl List.nodup_nil⟩

/-! ## What an order does -/

theorem emit_cases (e : Emitter) (note : Option String) (code : List Instruction) :
    (∃ f, e.emit note code = (e, some f)) ∨
    ((∀ n ∈ labelNames code, n ∉ e.labels ∧ n ∉ e.statics) ∧
      e.emit note code = ({ e with
        labels := labelNames code ++ e.labels
        listing := e.listing.append (e.annotation note ++ code) }, none)) := by
  unfold emit
  cases h : (labelNames code).findSome? e.clash? with
  | some f => exact .inl ⟨f, rfl⟩
  | none =>
    refine .inr ⟨fun n hn => ?_, rfl⟩
    have hclash : e.clash? n = none := List.findSome?_eq_none_iff.1 h n hn
    by_cases hl : n ∈ e.labels
    · simp [clash?, hl] at hclash
    · by_cases hs : n ∈ e.statics
      · simp [clash?, hl, hs] at hclash
      · exact ⟨hl, hs⟩

theorem emitCode_of_fits {e : Emitter} {note : Option String} {numbers : List Int}
    {code : List Instruction} (h : ∀ n ∈ numbers, Numeral.Fits n) :
    emitCode note numbers (e, .ok code) = e.emit note code := if_pos h

theorem emitCode_of_overlong {e : Emitter} {note : Option String} {numbers : List Int}
    {code : List Instruction} (h : ¬ ∀ n ∈ numbers, Numeral.Fits n) :
    emitCode note numbers (e, .ok code) = (e, some .overlong) := if_neg h

theorem run_of_origin {e : Emitter} {o : Order} {g : Origin} (h : o.origin? = some g) :
    e.run o = emitCode o.note (e.numbersFor o g) (e.prepare g) := by
  cases o with
  | enter file => cases h
  | bootstrap => cases h; rfl
  | command c => cases h; rfl
  | bare c => cases h; rfl
  | access kind segment index =>
    simp only [Order.origin?] at h
    split at h
    · next c hc =>
      cases h
      simp only [run, hc]
      rfl
    · cases h
  | operator word =>
    simp only [Order.origin?] at h
    split at h
    · next c hc =>
      cases h
      simp only [run, hc]
      rfl
    · cases h
  | foreign shown => cases h

theorem mem_numbers_of_noted {o : Order} {c : Command} (h : o.origin? = some (.command c)) {n : Int}
    (hn : n ∈ o.noted) : n ∈ c.numbers := by
  cases o with
  | command c' =>
    cases h
    exact hn
  | _ => cases hn

/-- Code for a static variable has its number in the symbol. -/
theorem fits_of_prepare {e : Emitter} {g : Origin} {code : List Instruction}
    (h : (e.prepare g).2 = .ok code) : ∀ i ∈ g.indices, Numeral.Fits i := by
  intro i hi
  unfold Origin.indices at hi
  split at hi
  · rw [List.mem_singleton.1 hi]
    exact (Block.push_static_eq_ok.1 (withSegment_eq_ok h)).1
  · rw [List.mem_singleton.1 hi]
    exact (Block.pop_static_eq_ok.1 (withSegment_eq_ok h)).1
  · cases hi

/-- An access to a static variable has no number but that of the variable. -/
theorem mem_indices_of_static {e : Emitter} {o : Order} {g : Origin} {name : String}
    (ho : o.origin? = some g) (hs : g.static? e.file = some name) {n : Int}
    (hn : n ∈ e.numbersFor o g) : n ∈ g.indices := by
  rcases List.mem_append.1 hn with hnoted | hordinal <;> unfold Origin.static? at hs <;> split at hs
  · exact mem_numbers_of_noted ho hnoted
  · exact mem_numbers_of_noted ho hnoted
  · cases hs
  · cases hordinal
  · cases hordinal
  · cases hs

/-- The number in a symbol has been written before, so code that is refused for a number has none. -/
theorem static?_of_overlong {e : Emitter} {o : Order} {g : Origin} {code : List Instruction}
    (ho : o.origin? = some g) (hcode : (e.prepare g).2 = .ok code)
    (h : ¬ ∀ n ∈ e.numbersFor o g, Numeral.Fits n) : g.static? e.file = none := by
  cases hs : g.static? e.file with
  | none => rfl
  | some name => exact absurd (fun n hn => fits_of_prepare hcode n (mem_indices_of_static ho hs hn)) h

/-- An order that asks for no code enters a file, or faults and does nothing. -/
theorem no_code_cases {o : Order} (h : o.origin? = none) :
    (∃ file, o = .enter file) ∨ ∃ f, ∀ e : Emitter, e.run o = (e, some f) := by
  cases o with
  | enter file => exact .inl ⟨file, rfl⟩
  | bootstrap => cases h
  | command c => cases h
  | bare c => cases h
  | access kind segment index =>
    simp only [Order.origin?] at h
    split at h
    · cases h
    · next f hc => exact .inr ⟨f, fun e => by simp only [run, hc]⟩
  | operator word =>
    simp only [Order.origin?] at h
    split at h
    · cases h
    · next f hc => exact .inr ⟨f, fun e => by simp only [run, hc]⟩
  | foreign shown => exact .inr ⟨.notACommand shown, fun _ => rfl⟩

theorem run_of_no_origin {e : Emitter} {o : Order} (h : o.origin? = none) : Alike e (e.run o).1 := by
  rcases no_code_cases h with ⟨file, rfl⟩ | ⟨f, hf⟩
  · exact ⟨rfl, rfl, rfl, rfl⟩
  · rw [hf e]
    exact .refl e

/-- What it means that an order adds the block `b`, which leaves the emitter as `e'`. -/
structure Emits (e : Emitter) (b : Emitted) (e' : Emitter) : Prop where
  options : e'.options = e.options
  place : b.file = e.file ∧ b.function = e.function
  coded : (e.prepare b.origin).2 = .ok b.code
  listing : e'.listing.toList = e.listing.toList ++ b.lines
  note : ∀ i ∈ b.note, ∃ t, i = .comment t
  labels : e'.labels = labelNames b.code ++ e.labels
  statics : e'.statics = e.staticsWith b.static?
  fresh : ∀ n ∈ labelNames b.code, n ∉ e.labels ∧ n ∉ e.statics
  notLabel : ∀ n, b.static? = some n → n ∉ e.labels ∧ symbol n ∈ b.code ∧ labelNames b.code = []
  nodup : (labelNames b.code).Nodup

theorem comment_of_mem_annotation (e : Emitter) (note : Option String) :
    ∀ i ∈ e.annotation note, ∃ t, i = .comment t := by
  intro i hi
  unfold annotation at hi
  cases note with
  | none => cases hi
  | some t =>
    by_cases h : e.options.annotate
    · simp only [if_pos h] at hi
      exact ⟨t, List.mem_singleton.1 hi⟩
    · simp only [if_neg h] at hi
      cases hi

/-- An order either leaves the listing and the symbols as they are, or adds a block. -/
theorem run_cases (e : Emitter) (o : Order) :
    (e.emitted? o = none ∧ Alike e (e.run o).1) ∨
    (∃ b, e.emitted? o = some b ∧ Emits e b (e.run o).1) := by
  cases hg : o.origin? with
  | none => exact .inl ⟨by simp only [emitted?, hg], run_of_no_origin hg⟩
  | some g =>
    rcases e.prepare_cases g with ⟨e', f, hp, ha⟩ | ⟨e', code, hp, ha⟩
    · have hrun : e.run o = (e', some f) := by rw [run_of_origin hg, hp]; rfl
      exact .inl ⟨by simp only [emitted?, hg, hrun], by rw [hrun]; exact ha⟩
    · have hprepare : (e.prepare g).2 = .ok code := by rw [hp]
      by_cases hfits : ∀ n ∈ e.numbersFor o g, Numeral.Fits n
      swap
      · have hrun : e.run o = (e', some .overlong) := by
          rw [run_of_origin hg, hp, emitCode_of_overlong hfits]
        refine .inl ⟨by simp only [emitted?, hg, hrun], ?_⟩
        rw [hrun]
        exact ha.alike (static?_of_overlong hg hprepare hfits)
      have hrun : e.run o = e'.emit o.note code := by
        rw [run_of_origin hg, hp, emitCode_of_fits hfits]
      rcases e'.emit_cases o.note code with ⟨f, hf⟩ | ⟨hfresh, hf⟩
      · refine .inl ⟨by simp only [emitted?, hg, hrun, hf], ?_⟩
        rw [hrun, hf]
        -- A block that clashes has labels, so it does not refer to a static variable.
        cases hs : g.static? e.file with
        | none => exact ha.alike hs
        | some n =>
          rw [emit, (ha.notLabel n hs).2.2] at hf
          exact nomatch congrArg Prod.snd hf
      · refine .inr ⟨⟨g, e.file, e.function, e.annotation o.note, code⟩,
          by simp only [emitted?, hg, hrun, hf, hp], ?_⟩
        rw [hrun, hf]
        have hnote : e'.annotation o.note = e.annotation o.note := by
          unfold annotation
          rw [ha.options]
        refine ⟨ha.options, ⟨rfl, rfl⟩, by rw [hp], ?_, ?_, by rw [ha.labels], ha.statics, ?_,
          ha.notLabel, ha.nodup⟩
        · rw [Listing.toList_append, ha.listing, hnote]
          rfl
        · exact e.comment_of_mem_annotation o.note
        · intro n hn
          obtain ⟨hl, hs⟩ := hfresh n hn
          rw [ha.labels] at hl
          rw [ha.statics] at hs
          exact ⟨hl, fun h => hs ((e.mem_staticsWith _ n).2 (.inl h))⟩

theorem after_append (e : Emitter) (orders more : List Order) :
    e.after (orders ++ more) = (e.after orders).after more := List.foldl_append ..

theorem listing_prefix_after (e : Emitter) (orders : List Order) :
    e.listing.toList <+: (e.after orders).listing.toList := by
  induction orders generalizing e with
  | nil => exact List.prefix_rfl
  | cons o orders ih =>
    refine List.IsPrefix.trans ?_ (ih (e.run o).1)
    rcases e.run_cases o with ⟨-, ha⟩ | ⟨b, -, hb⟩
    · exact ⟨[], by rw [List.append_nil, ha.listing]⟩
    · rw [hb.listing]
      exact List.prefix_append ..

end Emitter

end HackVm
