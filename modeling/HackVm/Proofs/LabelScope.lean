import HackVm.Proofs.Clashes
import HackVm.Proofs.SymbolTable

/-!
# Where jumps go

A jump to a label goes to the symbol of that label in the function or the file that the jump is in.
Nothing checks that the symbol is defined by such a label: a jump to a name that is made up for a call
lands behind that call, and a function with the name of a file shares the labels of the file. If
neither happens, labels are local.

* `Emitter.GoesTo` : the symbol that the code of a jump ends with;
* `Emitter.SameScope` : being in the same function, or outside of functions in the same file;
* `Emitter.Scoped` : the runs in which no function has the name of a file;
* `Emitter.label_of_target` : only a label of the same scope and name defines the target of a jump;
* `Emitter.target_of_call` : a jump that lands behind a call.
-/

namespace HackVm
open Instruction

def Command.target? : Command → Option String
  | .goto n => some n
  | .ifGoto n => some n
  | _ => none

namespace Emitter

/-- The code for `g` ends with a jump to `t`. -/
def GoesTo (e : Emitter) (g : Origin) (t : String) : Prop :=
  ∃ code comp condition, (e.prepare g).2 = .ok (code ++ [symbol t, jumpIf comp condition])

/-- Both emitters are in the same function, or outside of functions in the same file. -/
def SameScope (e e' : Emitter) : Prop :=
  e.function = e'.function ∧ (e.function = none → e.file = e'.file)

/-- A run of orders whose names hold no dollar, and in which no function is named like a file. -/
structure Scoped (options : Options) (orders : List Order) : Prop extends Plain options orders where
  function : ∀ o ∈ orders, ∀ f k, o.origin? = some (.command (.function f k)) →
    f ≠ "" ∧ .enter f ∉ orders

/-! ## The target of a jump -/

theorem target_eq {code before : List Instruction} {t t' comp comp' condition condition' : String}
    (h : code ++ [symbol t, jumpIf comp condition] = before ++ [symbol t', jumpIf comp' condition']) :
    t = t' := by
  have hend : [symbol t, jumpIf comp condition] = [symbol t', jumpIf comp' condition'] :=
    List.append_inj_right' h rfl
  have hload : symbol t = symbol t' := (List.cons.inj hend).1
  exact Operand.symbol.inj (Instruction.address.inj hload)

theorem GoesTo.eq_text {e : Emitter} {c : Command} {n t : String} (h : e.GoesTo (.command c) t)
    (hc : c.target? = some n) : t = (Label.branch e.scope n).text := by
  show t = e.scope ++ "$" ++ n
  rw [scope, ← Naming.label_eq]
  obtain ⟨code, comp, condition, hcode⟩ := h
  cases c with
  | goto m =>
    cases hc
    have hblock : [] ++ [symbol (Naming.label e.file e.function n), jump] =
        code ++ [symbol t, jumpIf comp condition] := Except.ok.inj hcode
    exact (target_eq hblock).symm
  | ifGoto m =>
    cases hc
    have hblock : Block.popD ++ [symbol (Naming.label e.file e.function n), jumpIf "D" "JNE"] =
        code ++ [symbol t, jumpIf comp condition] := Except.ok.inj hcode
    exact (target_eq hblock).symm
  | _ => cases hc

/-! ## Scopes -/

section Run
variable {options : Options} {orders : List Order}

/-- The names of files, with the one that stands before any file. -/
def IsFile (orders : List Order) (n : String) : Prop := n = "" ∨ .enter n ∈ orders

theorem Scoped.located {e : Emitter} {g : Origin} (h : Scoped options orders)
    (hg : ({ options := options } : Emitter).Coded orders e g) :
    e.Located (IsFile orders) (fun f => ¬ IsFile orders f) := by
  apply hg.invariant (P := Located (IsFile orders) (fun f => ¬ IsFile orders f))
  · exact ⟨.inl rfl, fun _ hf => nomatch hf⟩
  · intro e o ho he
    apply he.run
    · rintro file rfl
      exact .inr ho
    · intro f k hfun
      exact not_or.2 (h.function o ho f k hfun)

theorem Located.scope_of_function {e : Emitter} {f : String}
    (h : e.Located (IsFile orders) (fun f => ¬ IsFile orders f)) (hf : e.function = some f) :
    e.scope = f := by
  have hne : f ≠ "" := fun hempty => h.function f hf (.inl hempty)
  unfold Emitter.scope Naming.scope
  rw [hf]
  exact if_neg hne

theorem scope_of_no_function {e : Emitter} (h : e.function = none) : e.scope = e.file := by
  unfold Emitter.scope Naming.scope
  rw [h]

/-- The scope of a label tells functions from files. -/
theorem Located.sameScope {e e' : Emitter}
    (h : e.Located (IsFile orders) (fun f => ¬ IsFile orders f))
    (h' : e'.Located (IsFile orders) (fun f => ¬ IsFile orders f)) (heq : e.scope = e'.scope) :
    e.SameScope e' := by
  cases hf : e.function with
  | none =>
    rw [scope_of_no_function hf] at heq
    cases hf' : e'.function with
    | none =>
      rw [scope_of_no_function hf'] at heq
      exact ⟨hf.trans hf'.symm, fun _ => heq⟩
    | some f' =>
      -- One is in a file and the other in a function, and their names differ.
      rw [h'.scope_of_function hf'] at heq
      have hfile : IsFile orders f' := heq ▸ h.file
      exact absurd hfile (h'.function f' hf')
  | some f =>
    rw [h.scope_of_function hf] at heq
    cases hf' : e'.function with
    | none =>
      rw [scope_of_no_function hf'] at heq
      have hfile : IsFile orders f := heq ▸ h'.file
      exact absurd hfile (h.function f hf)
    | some f' =>
      rw [h'.scope_of_function hf'] at heq
      refine ⟨by rw [hf, hf', heq], fun hnone => ?_⟩
      rw [hf] at hnone
      cases hnone

/-- Only a label of the same scope defines the symbol of a label whose name is not made up. -/
theorem Plain.eq_label_of_defines {e e' : Emitter} {g : Origin} {n : String} (h : Plain options orders)
    (he : e.Rooted) (hn : ¬ MadeUp n) (hg : ({ options := options } : Emitter).Coded orders e' g)
    (hdef : e'.Defines g (Label.branch e.scope n).text) :
    g = .command (.label n) ∧ e'.scope = e.scope := by
  obtain ⟨l, hl, htext⟩ := hdef.exists_label
  have hroot : (Label.branch e.scope n).Rooted := he.scope
  have hparts : l.parts = (e.scope, some n) := Label.parts_eq ((h.coded hg).2 l hl) hroot htext
  rw [Label.eq_branch_of_parts hparts hn] at hl
  exact branch_mem_labelsFor.1 hl

end Run

/-- Labels are local. Take any run in which no name holds a dollar and no function is named like a
file, and a jump in it to a label whose name is not like one made up for a call or a comparison. If
the symbol that the jump goes to is defined in the listing at all, then by a label command for that
name in the same function, or outside of functions in the same file, and by nothing else. -/
theorem label_of_target (options : Options) (orders : List Order) (h : Scoped options orders)
    (e : Emitter) (c : Command) (n t : String)
    (hjump : ({ options := options } : Emitter).Coded orders e (.command c))
    (hc : c.target? = some n) (hn : ¬ MadeUp n) (ht : e.GoesTo (.command c) t)
    (hdef : t ∈ labelNames (({ options := options } : Emitter).after orders).listing.toList) :
    (∃ e', ({ options := options } : Emitter).Coded orders e' (.command (.label n)) ∧
      e'.Defines (.command (.label n)) t ∧ e.SameScope e') ∧
    ∀ e' g, ({ options := options } : Emitter).Coded orders e' g → e'.Defines g t →
      g = .command (.label n) ∧ e.SameScope e' := by
  have he : e.Rooted := (h.coded hjump).1
  have hlocal : ∀ e' g, ({ options := options } : Emitter).Coded orders e' g → e'.Defines g t →
      g = .command (.label n) ∧ e.SameScope e' := by
    intro e' g hg hgdef
    rw [ht.eq_text hc] at hgdef
    obtain ⟨hlabel, hscope⟩ := h.eq_label_of_defines he hn hg hgdef
    exact ⟨hlabel, (h.located hjump).sameScope (h.located hg) hscope.symm⟩
  refine ⟨?_, hlocal⟩
  -- A label of the listing is one of the emitter, and each of those has an order that defined it.
  have hused : t ∈ (({ options := options } : Emitter).after orders).labels :=
    (((Kept.fresh options).after orders).labels t).2 hdef
  obtain ⟨e', g, hg, hgdef⟩ := mem_labels_after.1 hused
  obtain ⟨rfl, hsame⟩ := hlocal e' g hg hgdef
  exact ⟨e', hg, hgdef, hsame⟩

def endlessLoop : List Order :=
  [.enter "Main", .command (.function "f" 0), .command (.label "LOOP"), .command (.goto "LOOP")]

theorem label_of_target_endlessLoop :
    ∃ e, ({} : Emitter).Coded endlessLoop e (.command (.label "LOOP")) ∧ e.function = some "f" := by
  have hscoped : Scoped {} endlessLoop := by
    refine ⟨⟨by decide, ?_⟩, ?_⟩
    · simp [endlessLoop, Command.Rooted]
    · simp [endlessLoop, Order.origin?]
  have hjump : ({} : Emitter).Coded endlessLoop (({} : Emitter).after (endlessLoop.take 3))
      (.command (.goto "LOOP")) :=
    ⟨_, ⟨endlessLoop.take 3, [], rfl, rfl⟩, rfl, by decide⟩
  have hown : ¬ MadeUp "LOOP" := not_madeUp (by decide) (ne_returnName (by decide))
  obtain ⟨⟨e, hlabel, -, hsame⟩, -⟩ :=
    label_of_target {} endlessLoop hscoped _ _ "LOOP" "f$LOOP" hjump rfl hown
      ⟨[], "0", "JMP", rfl⟩ (by decide)
  exact ⟨e, hlabel, hsame.1.symm⟩

def jumpBehindCall : List Order :=
  [.enter "Main", .command (.function "f" 0), .command (.goto "ret.0"), .command (.call "f" 0)]

/-- All orders are carried out, and the target of the jump is defined although there is no label. -/
theorem target_of_call :
    (∀ e o, ({} : Emitter).Meets jumpBehindCall e o → (e.run o).2 = none) ∧
    ∃ e e', ({} : Emitter).Coded jumpBehindCall e (.command (.goto "ret.0")) ∧
      e.GoesTo (.command (.goto "ret.0")) "f$ret.0" ∧
      "f$ret.0" ∈ labelNames (({} : Emitter).after jumpBehindCall).listing.toList ∧
      ({} : Emitter).Coded jumpBehindCall e' (.command (.call "f" 0)) ∧
      e'.Defines (.command (.call "f" 0)) "f$ret.0" ∧
      ∀ e'', ¬ ({} : Emitter).Coded jumpBehindCall e'' (.command (.label "ret.0")) := by
  refine ⟨?_, ({} : Emitter).after (jumpBehindCall.take 2),
    ({} : Emitter).after (jumpBehindCall.take 3), ?_, ?_, ?_, ?_, ?_, ?_⟩
  · intro e o h
    simp only [jumpBehindCall, meets_cons, not_meets_nil, or_false] at h
    rcases h with ⟨rfl, rfl⟩ | ⟨rfl, rfl⟩ | ⟨rfl, rfl⟩ | ⟨rfl, rfl⟩ <;> decide
  · exact ⟨_, ⟨jumpBehindCall.take 2, _, rfl, rfl⟩, rfl, by decide⟩
  · exact ⟨[], "0", "JMP", rfl⟩
  · decide
  · exact ⟨_, ⟨jumpBehindCall.take 3, [], rfl, rfl⟩, rfl, by decide⟩
  · exact ⟨_, rfl, by decide⟩
  · rintro e'' ⟨o, hmeets, ho, -⟩
    have hmem := hmeets.mem
    simp only [jumpBehindCall, List.mem_cons, List.not_mem_nil, or_false] at hmem
    rcases hmem with rfl | rfl | rfl | rfl <;> cases ho

end Emitter

end HackVm
