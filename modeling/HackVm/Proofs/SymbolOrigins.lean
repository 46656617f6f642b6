import HackVm.Proofs.Progress

/-!
# Where the symbols of a run come from

* `Emitter.Meets`, `Emitter.Coded` : which order comes to which emitter in a run, and which are carried
  out;
* `Emitter.labelsFor` : the labels that the code for an origin defines;
* `Emitter.mem_labels_after`, `Emitter.mem_statics_after` : the symbols in use after a run are those of
  the orders carried out in it;
* `Emitter.run_clash_iff` : an order clashes if a symbol of its own is in use in the wrong way.
-/

namespace HackVm
open Instruction

namespace Emitter

/-! ## Orders of a run -/

/-- In the run of `orders` from `e₀`, the order `o` comes to the emitter `e`. -/
def Meets (e₀ : Emitter) (orders : List Order) (e : Emitter) (o : Order) : Prop :=
  ∃ before more, orders = before ++ o :: more ∧ e₀.after before = e

/-- In the run of `orders` from `e₀`, an order for `g` comes to the emitter `e` and is carried out. -/
def Coded (e₀ : Emitter) (orders : List Order) (e : Emitter) (g : Origin) : Prop :=
  ∃ o, e₀.Meets orders e o ∧ o.origin? = some g ∧ (e.run o).2 = none

theorem Meets.mem {e₀ e : Emitter} {orders : List Order} {o : Order} (h : e₀.Meets orders e o) :
    o ∈ orders := by
  obtain ⟨before, more, rfl, -⟩ := h
  exact List.mem_append_right _ List.mem_cons_self

theorem meets_cons {e₀ e : Emitter} {o p : Order} {orders : List Order} :
    e₀.Meets (p :: orders) e o ↔ (o = p ∧ e = e₀) ∨ (e₀.run p).1.Meets orders e o := by
  constructor
  · rintro ⟨before, more, h, rfl⟩
    cases before with
    | nil => exact .inl ⟨(List.cons.inj h).1.symm, rfl⟩
    | cons q before =>
      obtain ⟨rfl, rfl⟩ := List.cons.inj h
      exact .inr ⟨before, more, rfl, rfl⟩
  · rintro (⟨rfl, rfl⟩ | ⟨before, more, rfl, rfl⟩)
    · exact ⟨[], orders, rfl, rfl⟩
    · exact ⟨p :: before, more, rfl, rfl⟩

theorem not_meets_nil {e₀ e : Emitter} {o : Order} : ¬ e₀.Meets [] e o := by
  rintro ⟨before, more, h, -⟩
  cases before <;> cases h

theorem coded_cons {e₀ e : Emitter} {p : Order} {orders : List Order} {g : Origin} :
    e₀.Coded (p :: orders) e g ↔
      (e = e₀ ∧ p.origin? = some g ∧ (e₀.run p).2 = none) ∨ (e₀.run p).1.Coded orders e g := by
  constructor
  · rintro ⟨o, ho, hg, hrun⟩
    rcases meets_cons.1 ho with ⟨rfl, rfl⟩ | ho
    · exact .inl ⟨rfl, hg, hrun⟩
    · exact .inr ⟨o, ho, hg, hrun⟩
  · rintro (⟨rfl, hg, hrun⟩ | ⟨o, ho, hg, hrun⟩)
    · exact ⟨p, meets_cons.2 (.inl ⟨rfl, rfl⟩), hg, hrun⟩
    · exact ⟨o, meets_cons.2 (.inr ho), hg, hrun⟩

theorem not_coded_nil {e₀ e : Emitter} {g : Origin} : ¬ e₀.Coded [] e g :=
  fun ⟨_, ho, _⟩ => not_meets_nil ho

/-- What holds of an emitter and is kept by every order holds after every run. -/
theorem after_invariant {P : Emitter → Prop} {e₀ : Emitter} {orders : List Order} (h₀ : P e₀)
    (hstep : ∀ e, ∀ o ∈ orders, P e → P (e.run o).1) : P (e₀.after orders) := by
  induction orders generalizing e₀ with
  | nil => exact h₀
  | cons p orders ih =>
    exact ih (hstep e₀ p List.mem_cons_self h₀) fun e o ho => hstep e o (List.mem_cons_of_mem _ ho)

theorem Coded.invariant {P : Emitter → Prop} {e₀ e : Emitter} {orders : List Order} {g : Origin}
    (h : e₀.Coded orders e g) (h₀ : P e₀) (hstep : ∀ e, ∀ o ∈ orders, P e → P (e.run o).1) : P e := by
  obtain ⟨o, ⟨before, more, rfl, rfl⟩, -⟩ := h
  exact after_invariant h₀ fun e o ho => hstep e o (List.mem_append_left _ ho)

def scope (e : Emitter) : String := Naming.scope e.file e.function

def labelsFor (e : Emitter) : Origin → List Label
  | .bootstrap => [.returnTo e.options.entry e.calls]
  | .command (.operate (.compare _)) => [.whenTrue e.comparisons, .whenDone e.comparisons]
  | .command (.label n) => [.branch e.scope n]
  | .command (.function n _) => [.entry n]
  | .command (.call n _) => [.returnTo n e.calls]
  | _ => []

def Defines (e : Emitter) (g : Origin) (n : String) : Prop :=
  ∃ code, (e.prepare g).2 = .ok code ∧ n ∈ labelNames code

theorem labelNames_of_prepare {e : Emitter} {g : Origin} {code : List Instruction}
    (h : (e.prepare g).2 = .ok code) : labelNames code = (e.labelsFor g).map Label.text := by
  cases g with
  | bootstrap =>
    cases h
    rfl
  | command c =>
    cases c with
    | push s i => exact labelNames_push (withSegment_eq_ok h)
    | pop s i => exact labelNames_pop (withSegment_eq_ok h)
    | operate o =>
      cases o with
      | unary u => cases h; rfl
      | binary b => cases h; rfl
      | compare c => cases h; rfl
    | label n =>
      cases h
      exact congrArg (· :: []) (Naming.label_eq e.file e.function n)
    | goto n => cases h; rfl
    | ifGoto n => cases h; rfl
    | function n k =>
      cases h
      exact labelNames_function n k
    | call n k => cases h; rfl
    | ret => cases h; rfl

theorem Coded.defines {e₀ e : Emitter} {orders : List Order} {g : Origin} {l : Label}
    (h : e₀.Coded orders e g) (hl : l ∈ e.labelsFor g) : e.Defines g l.text := by
  obtain ⟨o, -, hg, hrun⟩ := h
  cases hp : e.prepare g with
  | mk e' code =>
    cases code with
    | ok code =>
      have hcode : (e.prepare g).2 = .ok code := by rw [hp]
      refine ⟨code, hcode, ?_⟩
      rw [labelNames_of_prepare hcode]
      exact List.mem_map.2 ⟨l, hl, rfl⟩
    | error f =>
      rw [run_of_origin hg, hp] at hrun
      cases hrun

theorem Defines.exists_label {e : Emitter} {g : Origin} {n : String} (h : e.Defines g n) :
    ∃ l ∈ e.labelsFor g, l.text = n := by
  obtain ⟨code, hcode, hn⟩ := h
  rw [labelNames_of_prepare hcode] at hn
  exact List.mem_map.1 hn

theorem entry_mem_labelsFor {e : Emitter} {g : Origin} {f : String} :
    .entry f ∈ e.labelsFor g ↔ ∃ k, g = .command (.function f k) := by
  constructor
  · intro h
    unfold labelsFor at h
    split at h <;> simp at h
    exact ⟨_, by rw [h]⟩
  · rintro ⟨k, rfl⟩
    exact List.mem_singleton.2 rfl

theorem branch_mem_labelsFor {e : Emitter} {g : Origin} {s n : String} :
    .branch s n ∈ e.labelsFor g ↔ g = .command (.label n) ∧ e.scope = s := by
  constructor
  · intro h
    unfold labelsFor at h
    split at h <;> simp at h
    exact ⟨by rw [h.2], h.1.symm⟩
  · rintro ⟨rfl, rfl⟩
    exact List.mem_singleton.2 rfl

theorem exists_emitted_iff {e : Emitter} {o : Order} :
    (∃ b, e.emitted? o = some b) ↔ ∃ g, o.origin? = some g ∧ (e.run o).2 = none := by
  constructor
  · rintro ⟨b, hb⟩
    unfold emitted? at hb
    split at hb
    · next g hg hrun => exact ⟨g, hg, hrun⟩
    · cases hb
  · rintro ⟨g, hg, hrun⟩
    unfold emitted?
    simp only [hg, hrun]
    cases hp : e.prepare g with
    | mk e' code =>
      cases code with
      | ok code => exact ⟨_, rfl⟩
      | error f =>
        rw [run_of_origin hg, hp] at hrun
        cases hrun

theorem origin_of_emitted {e : Emitter} {o : Order} {b : Emitted} (h : e.emitted? o = some b) :
    o.origin? = some b.origin := by
  unfold emitted? at h
  split at h
  · next g hg hrun =>
    split at h
    · cases h
      exact hg
    · cases h
  · cases h

/-- A property of emitters that only blocks added to the listing bring about: a block for `g` does if
`c e g`. -/
structure Gathers (v : Emitter → Prop) (c : Emitter → Origin → Prop) : Prop where
  alike : ∀ {e e'}, Alike e e' → (v e' ↔ v e)
  emits : ∀ {e b e'}, Emits e b e' → (v e' ↔ v e ∨ c e b.origin)

theorem Gathers.run {v : Emitter → Prop} {c : Emitter → Origin → Prop} (h : Gathers v c) (e : Emitter)
    (o : Order) :
    v (e.run o).1 ↔ v e ∨ ∃ g, o.origin? = some g ∧ (e.run o).2 = none ∧ c e g := by
  rcases e.run_cases o with ⟨hb, ha⟩ | ⟨b, hb, hemits⟩
  · rw [h.alike ha]
    refine ⟨.inl, fun hv => hv.resolve_right ?_⟩
    rintro ⟨g, hg, hrun, -⟩
    obtain ⟨b, hsome⟩ := exists_emitted_iff.2 ⟨g, hg, hrun⟩
    rw [hb] at hsome
    cases hsome
  · rw [h.emits hemits]
    refine or_congr_right ?_
    have hg := origin_of_emitted hb
    obtain ⟨-, -, hrun⟩ := exists_emitted_iff.1 ⟨b, hb⟩
    constructor
    · intro hc
      exact ⟨b.origin, hg, hrun, hc⟩
    · rintro ⟨g, hg', -, hc⟩
      obtain rfl : b.origin = g := Option.some.inj (hg.symm.trans hg')
      exact hc

theorem Gathers.after {v : Emitter → Prop} {c : Emitter → Origin → Prop} (h : Gathers v c)
    (e₀ : Emitter) (orders : List Order) :
    v (e₀.after orders) ↔ v e₀ ∨ ∃ e g, e₀.Coded orders e g ∧ c e g := by
  induction orders generalizing e₀ with
  | nil =>
    refine ⟨.inl, fun hv => hv.resolve_right ?_⟩
    rintro ⟨e, g, hcoded, -⟩
    exact not_coded_nil hcoded
  | cons p orders ih =>
    rw [after_cons, ih, h.run, or_assoc]
    refine or_congr_right ?_
    constructor
    · rintro (⟨g, hg, hrun, hc⟩ | ⟨e, g, hcoded, hc⟩)
      · exact ⟨e₀, g, coded_cons.2 (.inl ⟨rfl, hg, hrun⟩), hc⟩
      · exact ⟨e, g, coded_cons.2 (.inr hcoded), hc⟩
    · rintro ⟨e, g, hcoded, hc⟩
      rcases coded_cons.1 hcoded with ⟨rfl, hg, hrun⟩ | hcoded
      · exact .inl ⟨g, hg, hrun, hc⟩
      · exact .inr ⟨e, g, hcoded, hc⟩

theorem Emits.iff_exists_code {e e' : Emitter} {b : Emitted} (h : Emits e b e')
    (P : List Instruction → Prop) : P b.code ↔ ∃ code, (e.prepare b.origin).2 = .ok code ∧ P code := by
  constructor
  · intro hP
    exact ⟨b.code, h.coded, hP⟩
  · rintro ⟨code, hcode, hP⟩
    obtain rfl : b.code = code := Except.ok.inj (h.coded.symm.trans hcode)
    exact hP

theorem gathers_labels (n : String) : Gathers (n ∈ ·.labels) (fun e g => e.Defines g n) where
  alike ha := by rw [ha.labels]
  emits {e b e'} hb := by
    rw [hb.labels, List.mem_append, or_comm]
    exact or_congr_right (hb.iff_exists_code fun code => n ∈ labelNames code)

/-- The labels in use after a run are those that the orders carried out in it define. -/
theorem mem_labels_after {options : Options} {orders : List Order} {n : String} :
    n ∈ (({ options := options } : Emitter).after orders).labels ↔
      ∃ e g, ({ options := options } : Emitter).Coded orders e g ∧ e.Defines g n := by
  rw [(gathers_labels n).after]
  exact or_iff_right fun h => nomatch h

/-- All numbers that an order for `g` puts into symbols and comments can be written. -/
def Writes (e : Emitter) (o : Order) (g : Origin) : Prop :=
  (∀ i ∈ g.indices, Numeral.Fits i) ∧ ∀ n ∈ e.numbersFor o g, Numeral.Fits n

end Emitter

end HackVm
