import HackVm.Proofs.Emission

/-!
# The symbols in use

An emitter keeps the labels and the static symbols that its listing uses, so that it can refuse a
symbol that would be both, or a label that would be defined twice.

* `Kept` : how the labels and static symbols of an emitter go with its blocks;
* `Kept.run`, `Kept.after` : an order keeps it so, and hence a run does;
* `Emitted.Refers` : a block loads a label that is numbered for it;
* `Emitter.symbols_after` : what holds after every run.
-/

namespace HackVm
open Instruction

/-! ## Symbols in use -/

/-- The blocks of a listing, and the symbols that an emitter knows of them. -/
structure Kept (options : Options) (e : Emitter) (blocks : List Emitted) : Prop where
  chosen : e.options = options
  listing : e.listing.toList = linesOf blocks
  note : ∀ b ∈ blocks, ∀ i ∈ b.note, ∃ t, i = .comment t
  /-- Every block is the code of its origin, as some emitter with these options prepares it. -/
  coded : ∀ b ∈ blocks, ∃ e' : Emitter, e'.options = options ∧ e'.file = b.file ∧
    e'.function = b.function ∧ (e'.prepare b.origin).2 = .ok b.code
  /-- No label is defined twice. -/
  nodup : (labelNames e.listing.toList).Nodup
  /-- The labels are those that the listing defines. -/
  labels : ∀ n, n ∈ e.labels ↔ n ∈ labelNames e.listing.toList
  /-- The static symbols are those that accesses in the listing refer to. -/
  statics : ∀ n, n ∈ e.statics ↔ ∃ b ∈ blocks, b.static? = some n ∧ symbol n ∈ b.code
  /-- No static symbol is a label. -/
  disjoint : ∀ n ∈ e.labels, n ∉ e.statics

namespace Kept
open Emitter

theorem fresh (options : Options) : Kept options { options := options } [] where
  chosen := rfl
  listing := rfl
  note _ h := nomatch h
  coded _ h := nomatch h
  nodup := List.nodup_nil
  labels _ := Iff.rfl
  statics n := by simp
  disjoint _ h := nomatch h

theorem alike {options : Options} {e e' : Emitter} {blocks : List Emitted} (h : Kept options e blocks)
    (ha : Alike e e') : Kept options e' blocks where
  chosen := ha.options.trans h.chosen
  listing := by rw [ha.listing]; exact h.listing
  note := h.note
  coded := h.coded
  nodup := by rw [ha.listing]; exact h.nodup
  labels n := by rw [ha.labels, ha.listing]; exact h.labels n
  statics n := by rw [ha.statics]; exact h.statics n
  disjoint n := by rw [ha.labels, ha.statics]; exact h.disjoint n

theorem labelNames_note {note : List Instruction} (h : ∀ i ∈ note, ∃ t, i = .comment t) :
    labelNames note = [] := by
  refine List.filterMap_eq_nil_iff.2 fun i hi => ?_
  obtain ⟨t, rfl⟩ := h i hi
  rfl

theorem emits {options : Options} {e e' : Emitter} {blocks : List Emitted} {b : Emitted}
    (h : Kept options e blocks) (hb : Emits e b e') : Kept options e' (blocks ++ [b]) := by
  have hnames : labelNames e'.listing.toList = labelNames e.listing.toList ++ labelNames b.code := by
    rw [hb.listing, labelNames_append, Emitted.lines, labelNames_append, labelNames_note hb.note,
      List.nil_append]
  refine ⟨hb.options.trans h.chosen, ?_, ?_, ?_, ?_, ?_, ?_, ?_⟩
  · rw [hb.listing, h.listing]
    simp [linesOf]
  · intro b' hb'
    rcases List.mem_append.1 hb' with hb' | hb'
    · exact h.note b' hb'
    · rw [List.mem_singleton.1 hb']
      exact hb.note
  · intro b' hb'
    rcases List.mem_append.1 hb' with hb' | hb'
    · exact h.coded b' hb'
    · rw [List.mem_singleton.1 hb']
      exact ⟨e, h.chosen, hb.place.1.symm, hb.place.2.symm, hb.coded⟩
  · rw [hnames, List.nodup_append]
    refine ⟨h.nodup, hb.nodup, ?_⟩
    rintro n hn m hm rfl
    exact (hb.fresh n hm).1 ((h.labels n).2 hn)
  · intro n
    rw [hb.labels, hnames, List.mem_append, List.mem_append, h.labels n, or_comm]
  · intro n
    rw [hb.statics, e.mem_staticsWith, h.statics n]
    constructor
    · rintro (⟨b', hb', hn⟩ | hn)
      · exact ⟨b', List.mem_append_left _ hb', hn⟩
      · exact ⟨b, List.mem_append_right _ (List.mem_singleton.2 rfl), hn, (hb.notLabel n hn).2.1⟩
    · rintro ⟨b', hb', hn⟩
      rcases List.mem_append.1 hb' with hb' | hb'
      · exact .inl ⟨b', hb', hn⟩
      · rw [List.mem_singleton.1 hb'] at hn
        exact .inr hn.1
  · intro n hn hs
    rw [hb.labels, List.mem_append] at hn
    rw [hb.statics, e.mem_staticsWith] at hs
    -- The block either defines labels or refers to a static variable, never both.
    rcases hn with hn | hn <;> rcases hs with hs | hs
    · exact (hb.fresh n hn).2 hs
    · rw [(hb.notLabel n hs).2.2] at hn
      cases hn
    · exact h.disjoint n hn hs
    · exact (hb.notLabel n hs).1 hn

/-- An order keeps the symbols right, whether it faults or not. -/
theorem run {options : Options} {e : Emitter} {blocks : List Emitted} (h : Kept options e blocks)
    (o : Order) : Kept options (e.run o).1 (blocks ++ (e.emitted? o).toList) := by
  rcases e.run_cases o with ⟨ho, ha⟩ | ⟨b, ho, hb⟩
  · rw [ho, Option.toList_none, List.append_nil]
    exact h.alike ha
  · rw [ho, Option.toList_some]
    exact h.emits hb

theorem after {options : Options} {e : Emitter} {blocks : List Emitted} (h : Kept options e blocks)
    (orders : List Order) : Kept options (e.after orders) (blocks ++ e.trace orders) := by
  induction orders generalizing e blocks with
  | nil => rw [trace, List.append_nil]; exact h
  | cons o orders ih =>
    rw [trace, ← List.append_assoc]
    exact ih (h.run o)

end Kept

/-! ## Labels of one block -/

namespace Emitted

/-- The code loads a comparison label, or the return label of its call. The bootstrap first loads
what the stack starts with, which is not part of its call. -/
def Refers (entry : String) (b : Emitted) (name : String) : Prop :=
  match b.origin with
  | .command (.operate (.compare _)) =>
    symbol name ∈ b.code ∧ ∃ k, name = Naming.whenTrue k ∨ name = Naming.whenDone k
  | .command (.call f _) => symbol name ∈ b.code ∧ ∃ k, name = Naming.returnTo f k
  | .bootstrap => symbol name ∈ b.code.tail ∧ ∃ k, name = Naming.returnTo entry k
  | _ => False

theorem dollar_mem_whenTrue (k : Option Int) : '$' ∈ (Naming.whenTrue k).toList := by
  simp [Naming.whenTrue]

theorem dollar_mem_whenDone (k : Option Int) : '$' ∈ (Naming.whenDone k).toList := by
  simp [Naming.whenDone]

theorem dollar_mem_returnTo (f : String) (k : Option Int) : '$' ∈ (Naming.returnTo f k).toList := by
  simp [Naming.returnTo]

theorem returnTo_ne (f : String) (k : Option Int) : Naming.returnTo f k ≠ f := by
  intro h
  have hlen := congrArg (fun s => s.toList.length) h
  simp [Naming.returnTo] at hlen

theorem symbol_mem_compare {c : Comparison} {k : Option Int} {n : String}
    (h : symbol n ∈ Block.compare c k) : n = "SP" ∨ n = Naming.whenTrue k ∨ n = Naming.whenDone k := by
  simp [Block.compare, symbol, assign, jumpIf, jump] at h
  grind

theorem symbol_mem_call {f n : String} {a : Int} {k : Option Int} (h : symbol n ∈ Block.call f a k) :
    n = Naming.returnTo f k ∨ n = f ∨ n ∈ ["SP", "LCL", "ARG", "THIS", "THAT"] := by
  simp [Block.call, Block.savedCells, Block.save, Block.pushD, symbol, number, assign, jumpIf, jump] at h
  grind

theorem returnTo_mem_call {f n : String} {a : Int} {k j : Option Int}
    (h : symbol n ∈ Block.call f a k) (hn : n = Naming.returnTo f j) :
    n ∈ labelNames (Block.call f a k) := by
  rcases symbol_mem_call h with rfl | hf | hcell
  · exact List.mem_singleton.2 rfl
  · exact absurd (hn.symm.trans hf) (returnTo_ne f j)
  · have hdollar : ∀ m ∈ ["SP", "LCL", "ARG", "THIS", "THAT"], '$' ∉ m.toList := by decide
    rw [hn] at hcell
    exact absurd (dollar_mem_returnTo f j) (hdollar _ hcell)

/-- The comparison and return labels that a block refers to are its own. -/
theorem Refers.mem_labelNames {e : Emitter} {b : Emitted} {n : String}
    (h : b.Refers e.options.entry n) (hb : (e.prepare b.origin).2 = .ok b.code) :
    n ∈ labelNames b.code := by
  obtain ⟨origin, file, function, note, code⟩ := b
  unfold Refers at h
  split at h
  · next c hc =>
    obtain rfl : origin = _ := hc
    obtain rfl : Block.compare c (some e.comparisons) = code := Except.ok.inj hb
    obtain ⟨hmem, j, hj⟩ := h
    have hdollar : '$' ∈ n.toList := by
      rcases hj with rfl | rfl
      · exact dollar_mem_whenTrue j
      · exact dollar_mem_whenDone j
    rcases symbol_mem_compare hmem with rfl | rfl | rfl
    · exact absurd hdollar (by decide)
    · rw [Emitter.labelNames_compare]
      exact List.mem_cons_self
    · rw [Emitter.labelNames_compare]
      exact List.mem_cons_of_mem _ List.mem_cons_self
  · next f a hc =>
    obtain rfl : origin = _ := hc
    obtain rfl : Block.call f a (some e.calls) = code := Except.ok.inj hb
    obtain ⟨hmem, j, hj⟩ := h
    exact returnTo_mem_call hmem hj
  · next hc =>
    obtain rfl : origin = _ := hc
    obtain rfl : Block.bootstrap e.options.stackBase e.options.entry (some e.calls) = code :=
      Except.ok.inj hb
    obtain ⟨hmem, j, hj⟩ := h
    have hcall : n = "SP" ∨ symbol n ∈ Block.call e.options.entry 0 (some e.calls) := by
      simpa [Block.bootstrap, symbol, assign] using hmem
    rcases hcall with rfl | hcall
    · have hdollar := dollar_mem_returnTo e.options.entry j
      rw [← hj] at hdollar
      exact absurd hdollar (by decide)
    · exact returnTo_mem_call hcall hj
  · cases h

end Emitted

/-! ## Whole runs -/

namespace Emitter

/-- The symbols of every run from a fresh emitter, with orders that fault among them. The emitter
knows exactly the labels that the listing defines, all distinct, and the static symbols that its
accesses refer to, none of them a label; the comparison and return labels that a block refers to are
defined once in the listing, in that block; and the listing only grows at its end. -/
theorem symbols_after (options : Options) (orders : List Order) :
    let e₀ : Emitter := { options := options }
    let e := e₀.after orders
    Kept options e (e₀.trace orders) ∧
    (∀ b ∈ e₀.trace orders, ∀ n, b.Refers options.entry n →
      n ∈ labelNames b.code ∧ (labelNames e.listing.toList).count n = 1) ∧
    ∀ before more, orders = before ++ more →
      (e₀.after before).listing.toList <+: e.listing.toList := by
  intro e₀ e
  have hkept : Kept options e (e₀.trace orders) := (Kept.fresh options).after orders
  refine ⟨hkept, ?_, ?_⟩
  · intro b hb n hn
    obtain ⟨e', ho, -, -, hcode⟩ := hkept.coded b hb
    rw [← ho] at hn
    have hmem : n ∈ labelNames b.code := hn.mem_labelNames hcode
    refine ⟨hmem, List.count_eq_one_of_mem hkept.nodup ?_⟩
    rw [hkept.listing]
    exact mem_labelNames_linesOf hb hmem
  · rintro before more rfl
    rw [show e = (e₀.after before).after more from e₀.after_append before more]
    exact listing_prefix_after _ more

/-- The first comparison of a program has its label for itself. -/
theorem count_whenTrue_first :
    (labelNames (({} : Emitter).after [.command (.operate (.compare .eq))]).listing.toList).count
      (Naming.whenTrue (some 0)) = 1 := by
  have h := (symbols_after {} [.command (.operate (.compare .eq))]).2.1
  refine (h ⟨.command (.operate (.compare .eq)), "", none, [], Block.compare .eq (some 0)⟩ ?_ _ ?_).2
  · exact List.mem_singleton.2 rfl
  · refine ⟨?_, some 0, .inl rfl⟩
    simp [Block.compare]

end Emitter

end HackVm
