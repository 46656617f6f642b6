import HackVm.Proofs.Layout
import Mathlib.Data.List.Forall2

/-!
# Comments do not change the code

An emitter may be asked for a comment before the code of each command, and most commands can be ordered
in several ways. Neither has a part in what else the emitter does: without its comments, an emitter is
the one that was never asked for any.

* `withoutComments` : the lines that are no comments;
* `Order.Replaces` : the orders for a command, with and without a comment;
* `Emitter.unannotated` : the emitter without its comments;
* `Emitter.run_unannotated` : leaving out comments before an order or after it is the same;
* `Emitter.Annotates` : the comments that an order adds;
* `Emitter.after_unannotated` : a run with comments and a run without them go together step by step.
-/

namespace HackVm
open Instruction

/-! ## Lines that are no comments -/

def Instruction.isComment : Instruction → Bool
  | .comment _ => true
  | _ => false

def withoutComments (code : List Instruction) : List Instruction := code.filter fun i => !i.isComment

theorem withoutComments_append (code more : List Instruction) :
    withoutComments (code ++ more) = withoutComments code ++ withoutComments more :=
  List.filter_append ..

theorem withoutComments_note {note : List Instruction} (h : ∀ i ∈ note, ∃ t, i = .comment t) :
    withoutComments note = [] := by
  refine List.filter_eq_nil_iff.2 fun i hi => ?_
  obtain ⟨t, rfl⟩ := h i hi
  simp [isComment]

theorem codeSize_withoutComments (code : List Instruction) :
    codeSize (withoutComments code) = codeSize code := by
  unfold codeSize withoutComments
  rw [List.countP_filter]
  refine List.countP_congr fun i _ => ?_
  cases i <;> simp [isCode, isComment]

namespace Listing

def withoutComments (l : Listing) : Listing := ⟨(HackVm.withoutComments l.toList).toArray⟩

theorem toList_injective {l l' : Listing} (h : l.toList = l'.toList) : l = l' := by
  obtain ⟨code⟩ := l
  obtain ⟨code'⟩ := l'
  exact congrArg Listing.mk (Array.toList_inj.1 h)

theorem toList_withoutComments (l : Listing) :
    l.withoutComments.toList = HackVm.withoutComments l.toList := rfl

end Listing

namespace Block

theorem withoutComments_push {s : Segment} {i : Int} {file : String} {code : List Instruction}
    (h : push s i file = .ok code) : withoutComments code = code := by
  obtain ⟨loading, hloading, hcode⟩ := bind_eq_ok.1 h
  cases hcode
  rcases Emitter.load_forms hloading with ⟨o, comp, rfl⟩ | ⟨b, rfl⟩ <;> rfl

theorem withoutComments_pop {s : Segment} {i : Int} {file : String} {code : List Instruction}
    (h : pop s i file = .ok code) : withoutComments code = code := by
  rcases Emitter.pop_forms h with ⟨o, rfl⟩ | ⟨b, rfl⟩ <;> rfl

theorem withoutComments_function (name : String) (locals : Int) :
    withoutComments (function name locals) = function name locals := by
  have hzeros : ∀ k : Nat, withoutComments (List.replicate k pushZero).flatten =
      (List.replicate k pushZero).flatten := by
    intro k
    induction k with
    | zero => rfl
    | succ k ih =>
      rw [List.replicate_succ, List.flatten_cons, withoutComments_append, ih]
      rfl
  exact congrArg (.label name :: ·) (hzeros locals.toNat)

end Block

/-! ## Orders for the same command -/

/-- The first order asks for the same as the second, which may ask for a comment with it. The numbers in the
comment are short enough for it. -/
inductive Order.Replaces : Order → Order → Prop
  | same (o : Order) : Replaces o o
  | bare (c : Command) (h : c.Fits) : Replaces (.bare c) (.command c)
  | push (s : Segment) (i : Int) (h : Numeral.Fits i) :
    Replaces (.access .push s.word i) (.command (.push s i))
  | pop (s : Segment) (i : Int) (h : Numeral.Fits i) :
    Replaces (.access .pop s.word i) (.command (.pop s i))
  | operator (o : Operator) : Replaces (.operator o.word) (.command (.operate o))

theorem Order.Replaces.origin? {o o' : Order} (h : Replaces o' o) : o'.origin? = o.origin? := by
  cases h with
  | same => rfl
  | bare c hfits => rfl
  | push s i hfits => simp only [Order.origin?, Emitter.access, Segment.read, Segment.ofWord?_word, Except.map]
  | pop s i hfits => simp only [Order.origin?, Emitter.access, Segment.read, Segment.ofWord?_word, Except.map]
  | operator o => simp only [Order.origin?, Operator.read, Operator.ofWord?_word]

theorem Order.Replaces.eq_of_no_origin {o o' : Order} (h : Replaces o' o) (ho : o.origin? = none) :
    o' = o := by
  cases h with
  | same => rfl
  | _ => cases ho

namespace Emitter

theorem withoutComments_of_prepare {e : Emitter} {g : Origin} {code : List Instruction}
    (h : (e.prepare g).2 = .ok code) : withoutComments code = code := by
  cases g with
  | bootstrap => cases h; rfl
  | command c =>
    cases c with
    | push s i => exact Block.withoutComments_push (withSegment_eq_ok h)
    | pop s i => exact Block.withoutComments_pop (withSegment_eq_ok h)
    | operate o => cases o <;> cases h <;> rfl
    | function n k =>
      cases h
      exact Block.withoutComments_function n k
    | _ => cases h; rfl

/-! ## Emitters without comments -/

def unannotated (e : Emitter) : Emitter :=
  { e with options := { e.options with annotate := false }, listing := e.listing.withoutComments }

theorem withSegment_unannotated (e : Emitter) (s : Segment) (i : Int)
    (code : Except Fault (List Instruction)) :
    e.unannotated.withSegment s i code =
      ((e.withSegment s i code).1.unannotated, (e.withSegment s i code).2) := by
  unfold withSegment
  cases code with
  | error f => rfl
  | ok code =>
    by_cases hs : s = .static
    · by_cases hl : Naming.static e.file i ∈ e.labels <;> simp [hs, useStatic, unannotated, hl]
    · simp [hs]

theorem prepare_unannotated (e : Emitter) (g : Origin) :
    e.unannotated.prepare g = ((e.prepare g).1.unannotated, (e.prepare g).2) := by
  cases g with
  | bootstrap => rfl
  | command c =>
    cases c with
    | push s i => exact e.withSegment_unannotated s i _
    | pop s i => exact e.withSegment_unannotated s i _
    | operate o => cases o <;> rfl
    | _ => rfl

theorem annotation_unannotated (e : Emitter) (note : Option String) : e.unannotated.annotation note = [] := by
  cases note <;> rfl

theorem emit_unannotated (e : Emitter) (note note' : Option String) {code : List Instruction}
    (h : withoutComments code = code) :
    e.unannotated.emit note' code = ((e.emit note code).1.unannotated, (e.emit note code).2) := by
  have hclash : e.unannotated.clash? = e.clash? := rfl
  unfold emit
  rw [hclash, annotation_unannotated]
  cases (labelNames code).findSome? e.clash? with
  | some f => rfl
  | none =>
    have hlisting : e.listing.withoutComments.append ([] ++ code) =
        (e.listing.append (e.annotation note ++ code)).withoutComments := by
      apply Listing.toList_injective
      rw [Listing.toList_append, Listing.toList_withoutComments, Listing.toList_withoutComments,
        Listing.toList_append, withoutComments_append, withoutComments_append, h,
        withoutComments_note (e.comment_of_mem_annotation note)]
    exact congrArg (fun l : Listing =>
      ({ e.unannotated with labels := labelNames code ++ e.labels, listing := l }, none)) hlisting

/-- An order that is replaced has no number that its replacement does not have, but for some that fit. -/
theorem fits_numbersFor_iff (e : Emitter) {o o' : Order} (h : o'.Replaces o) (g : Origin) :
    (∀ n ∈ e.unannotated.numbersFor o' g, Numeral.Fits n) ↔ ∀ n ∈ e.numbersFor o g, Numeral.Fits n := by
  have hordinals : e.unannotated.ordinalsFor g = e.ordinalsFor g := by
    cases g with
    | bootstrap => rfl
    | command c => rfl
  have hnoted : (∀ n ∈ o'.noted, Numeral.Fits n) ↔ ∀ n ∈ o.noted, Numeral.Fits n := by
    cases h with
    | same => exact Iff.rfl
    | bare c hfits => exact iff_of_true (fun _ hn => nomatch hn) hfits
    | push s i hfits => exact iff_of_true (fun _ hn => nomatch hn) (List.forall_mem_singleton.2 hfits)
    | pop s i hfits => exact iff_of_true (fun _ hn => nomatch hn) (List.forall_mem_singleton.2 hfits)
    | operator o => exact Iff.rfl
  rw [numbersFor, numbersFor, hordinals, List.forall_mem_append, List.forall_mem_append, hnoted]

/-- Leaving out the comments before an order and after it is the same, and the order may be replaced. -/
theorem run_unannotated (e : Emitter) {o o' : Order} (h : o'.Replaces o) :
    e.unannotated.run o' = ((e.run o).1.unannotated, (e.run o).2) := by
  cases ho : o.origin? with
  | some g =>
    rw [run_of_origin (h.origin?.trans ho), run_of_origin ho, prepare_unannotated]
    cases hp : e.prepare g with
    | mk e₁ code =>
      cases code with
      | error f => rfl
      | ok code =>
        by_cases hfits : ∀ n ∈ e.numbersFor o g, Numeral.Fits n
        · rw [emitCode_of_fits hfits, emitCode_of_fits ((e.fits_numbersFor_iff h g).2 hfits)]
          exact e₁.emit_unannotated _ _ (withoutComments_of_prepare (by rw [hp]))
        · rw [emitCode_of_overlong hfits, emitCode_of_overlong (mt (e.fits_numbersFor_iff h g).1 hfits)]
  | none =>
    rw [h.eq_of_no_origin ho]
    rcases no_code_cases ho with ⟨file, rfl⟩ | ⟨f, hf⟩
    · rfl
    · rw [hf, hf]

/-! ## Runs with and without comments -/

/-- A run without comments, with orders replaced, is the run with comments when these are left out. -/
theorem after_unannotated_eq (e : Emitter) {orders orders' : List Order}
    (h : List.Forall₂ Order.Replaces orders' orders) :
    e.unannotated.after orders' = (e.after orders).unannotated := by
  induction h generalizing e with
  | nil => rfl
  | cons ho _ ih =>
    rw [after_cons, after_cons, run_unannotated e ho]
    exact ih _

/-- The comments that an order adds where comments are asked for: none if it faults or asks for no code,
and else one directly before its code, if it gets a comment at all. -/
structure Annotates (e : Emitter) (o : Order) : Prop where
  fault : ∀ f, (e.run o).2 = some f → (e.run o).1.listing = e.listing
  silent : o.origin? = none → (e.run o).1.listing = e.listing
  block : ∀ g, o.origin? = some g → (e.run o).2 = none → ∃ code, (e.prepare g).2 = .ok code ∧
    withoutComments code = code ∧
    (e.run o).1.listing.toList = e.listing.toList ++ (o.note.toList.map .comment ++ code)

theorem annotates {e : Emitter} (h : e.options.annotate = true) (o : Order) : e.Annotates o := by
  refine ⟨fun f hf => (stays_of_fault hf).listing, fun ho => (run_of_no_origin ho).listing, ?_⟩
  intro g hg hrun
  obtain ⟨code, hcode, hemits⟩ := emits_of_none hg hrun
  refine ⟨code, hcode, withoutComments_of_prepare hcode, ?_⟩
  have hnote : e.annotation o.note = o.note.toList.map .comment := by
    unfold annotation
    cases o.note with
    | none => rfl
    | some t => simp only [h, if_true, Option.toList_some, List.map_singleton]
  rw [hemits.listing, Emitted.lines, hnote]

/-- Two runs of the same orders from fresh emitters, one with comments and one without, in which
commands may be ordered in other ways. After each order both have the same symbols and numbers, are in
the same place and have the same code, up to comments; each order has the same outcome in both; and the
comments stand directly before the code of what was carried out. -/
theorem after_unannotated (options : Options) (orders orders' : List Order)
    (h : List.Forall₂ Order.Replaces orders' orders) (k : Nat) :
    let e := ({ options := { options with annotate := true } } : Emitter).after (orders.take k)
    let e' := ({ options := { options with annotate := false } } : Emitter).after (orders'.take k)
    e' = e.unannotated ∧ e'.listing.codeSize = e.listing.codeSize ∧
    ∀ o o', orders[k]? = some o → orders'[k]? = some o' →
      (e'.run o').2 = (e.run o).2 ∧ e.Annotates o := by
  intro e e'
  have heq : e' = e.unannotated :=
    after_unannotated_eq { options := { options with annotate := true } } (List.forall₂_take k h)
  refine ⟨heq, ?_, fun o o' ho ho' => ⟨?_, annotates ?_ o⟩⟩
  · rw [heq]
    exact codeSize_withoutComments _
  · obtain ⟨hk, rfl⟩ := List.getElem?_eq_some_iff.1 ho
    obtain ⟨hk', rfl⟩ := List.getElem?_eq_some_iff.1 ho'
    have hreplaces : Order.Replaces orders'[k] orders[k] := h.get hk' hk
    rw [heq, run_unannotated e hreplaces]
  · exact congrArg Options.annotate (options_after _ (orders.take k))

def commented : List Order :=
  [.bootstrap, .enter "Main", .command (.push .static 2), .command (.operate (.compare .eq)),
    .command (.pop .constant 0), .command (.function "Main.f" 1)]

def uncommented : List Order :=
  [.bootstrap, .enter "Main", .access .push "static" 2, .operator "eq", .bare (.pop .constant 0),
    .bare (.function "Main.f" 1)]

theorem after_unannotated_commented :
    (({} : Emitter).after uncommented).listing.toList =
      withoutComments
        (({ options := { annotate := true } } : Emitter).after commented).listing.toList ∧
    ((({} : Emitter).after (uncommented.take 4)).run (.bare (.pop .constant 0))).2 =
      some .popConstant := by
  have hreplaces : List.Forall₂ Order.Replaces uncommented commented :=
    .cons (.same _) (.cons (.same _) (.cons (.push .static 2 (by decide))
      (.cons (.operator (.compare .eq)) (.cons (.bare _ (by decide)) (.cons (.bare _ (by decide)) .nil)))))
  obtain ⟨hend, -⟩ := after_unannotated {} commented uncommented hreplaces 6
  obtain ⟨-, -, hpop⟩ := after_unannotated {} commented uncommented hreplaces 4
  refine ⟨congrArg (·.listing.toList) hend, ?_⟩
  exact (hpop (.command (.pop .constant 0)) (.bare (.pop .constant 0)) rfl rfl).1

end Emitter

end HackVm
