import HackVm.Proofs.Printing

/-!
# Lines that are read in part

When the first tokens of a line have been read, what may follow is known: the first token tells which places
are to be filled, each of them by one kind of token. Any tokens of these kinds complete the line, and the next
character tells whether there is one at a place.

* `WellFormed` : the lines of the language, whatever their words mean;
* `uncommented` : a line without its comment;
* `Leads` : tokens in front of the rest of a line;
* `Place.starts`, `Fits.unique` : the characters that start a token, and that no two tokens fit one place;
* `Hyphened` : the only text behind which a word might still become something else;
* `TokenKind.places` : the places behind the first token (`Phrase.exists_tokens_eq`, `Phrase.kinds_of_tokens`).
-/

namespace HackVm

namespace Line

/-- A line that is blank or written as a phrase. -/
def WellFormed (line : List Char) : Prop :=
  '\n' ∉ line ∧ (Ending line ∨ ∃ p : Phrase, p.Spelled line)

def uncommented : List Char → List Char
  | [] => []
  | '/' :: '/' :: _ => []
  | c :: cs => c :: uncommented cs

/-! ## Tokens in front of a text -/

/-- The text `u` is made of these tokens, with blanks before each of them, in front of `rest`. -/
def Leads : List (TokenKind × List Char) → List Char → List Char → Prop
  | [], u, _ => u = []
  | (k, w) :: ts, u, rest =>
    ∃ g v, u = g ++ w ++ v ∧ Blank g ∧ k.Spells w ∧ k.Stops (v ++ rest) ∧ Leads ts v rest

theorem Leads.written {ts us : List (TokenKind × List Char)} {u rest : List Char} (h : Leads ts u rest)
    (hrest : Written us rest) : Written (ts ++ us) (u ++ rest) := by
  induction ts generalizing u with
  | nil =>
    obtain rfl : u = [] := h
    exact hrest
  | cons t ts ih =>
    obtain ⟨g, v, rfl, hg, hspells, hstops, hv⟩ := h
    refine ⟨g, v ++ rest, ?_, hg, hspells, hstops, ih hv⟩
    rw [List.append_assoc _ v]

theorem Leads.snoc {ts : List (TokenKind × List Char)} {k : TokenKind} {u g w rest : List Char}
    (h : Leads ts u (g ++ w ++ rest)) (hg : Blank g) (hspells : k.Spells w) (hstops : k.Stops rest) :
    Leads (ts ++ [(k, w)]) (u ++ g ++ w) rest := by
  induction ts generalizing u with
  | nil =>
    obtain rfl : u = [] := h
    exact ⟨g, [], by simp, hg, hspells, hstops, rfl⟩
  | cons t ts ih =>
    obtain ⟨g', v, rfl, hg', hspells', hstops', hv⟩ := h
    refine ⟨g', v ++ g ++ w, by simp, hg', hspells', ?_, ih hv⟩
    simpa using hstops'

/-- Only the last token depends on what follows. -/
theorem Leads.congr {ts : List (TokenKind × List Char)} {u rest rest' : List Char} (h : Leads ts u rest)
    (hrest : ∀ k : TokenKind, k.Stops rest') : Leads ts u rest' := by
  induction ts generalizing u with
  | nil => exact h
  | cons t ts ih =>
    obtain ⟨g, v, rfl, hg, hspells, hstops, hv⟩ := h
    refine ⟨g, v, rfl, hg, hspells, ?_, ih hv⟩
    cases v with
    | nil => exact hrest t.1
    | cons c v => exact fun d hd => hstops d hd

theorem Blank.not_mem {g : List Char} {c : Char} (h : Blank g) (hc : isBlank c = false) : c ∉ g :=
  fun hmem => nomatch hc.symm.trans (h c hmem)

theorem slash_not_mem_spells {k : TokenKind} {w : List Char} (h : k.Spells w) : '/' ∉ w := by
  intro hmem
  cases k with
  | word => exact absurd (h.2 _ hmem) (by decide)
  | number => exact absurd (h.2 _ hmem) (by decide)
  | name =>
    obtain ⟨c, cs, rfl, hc, hcs⟩ := h
    rcases List.mem_cons.1 hmem with rfl | hmem
    · exact absurd hc (by decide)
    · exact absurd (hcs _ hmem) (by decide)
  | _ =>
    rw [TokenKind.Spells] at h
    rw [h] at hmem
    exact absurd hmem (by decide)

theorem Leads.slash_not_mem {ts : List (TokenKind × List Char)} {u rest : List Char} (h : Leads ts u rest) :
    '/' ∉ u := by
  induction ts generalizing u with
  | nil =>
    obtain rfl : u = [] := h
    exact List.not_mem_nil
  | cons t ts ih =>
    obtain ⟨g, v, rfl, hg, hspells, -, hv⟩ := h
    simp [hg.not_mem (c := '/') rfl, slash_not_mem_spells hspells, ih hv]

/-! ## Blanks and comments -/

theorem goesOn_of_isBlank {c : Char} (h : isBlank c = true) (k : TokenKind) : k.goesOn c = false := by
  simp only [isBlank, Bool.or_eq_true, beq_iff_eq] at h
  rcases h with ((rfl | rfl) | rfl) | rfl <;> cases k <;> rfl

theorem stops_blank {g r : List Char} (hg : Blank g) {k : TokenKind} (hr : k.Stops r) : k.Stops (g ++ r) := by
  cases g with
  | nil => exact hr
  | cons c g =>
    intro d hd
    obtain rfl : c = d := Option.some.inj hd
    exact goesOn_of_isBlank (hg c List.mem_cons_self) k

theorem Blank.append {g g' : List Char} (hg : Blank g) (hg' : Blank g') : Blank (g ++ g') :=
  List.forall_mem_append.2 ⟨hg, hg'⟩

theorem ending_of_blank {g : List Char} (h : Blank g) : Ending g := ⟨g, h, .inl rfl⟩

theorem written_blank {ts : List (TokenKind × List Char)} {g r : List Char} (hg : Blank g)
    (h : Written ts r) : Written ts (g ++ r) := by
  cases ts with
  | nil =>
    obtain ⟨g', hg', rfl | ⟨t, rfl, ht⟩⟩ := h
    · exact ending_of_blank (hg.append hg')
    · exact ⟨g ++ g', hg.append hg', .inr ⟨t, by simp, ht⟩⟩
  | cons t ts =>
    obtain ⟨g', rest, rfl, hg', hrest⟩ := h
    exact ⟨g ++ g', rest, by simp, hg.append hg', hrest⟩

/-- The tokens make up a line of their own, with blanks behind them. -/
theorem Leads.written_of_blank {ts : List (TokenKind × List Char)} {u rest g : List Char}
    (h : Leads ts u rest) (hg : Blank g) : Written ts (u ++ g) := by
  have hstops : ∀ k : TokenKind, k.Stops g := by
    intro k
    rw [← List.append_nil g]
    exact stops_blank hg fun _ hc => nomatch hc
  have hend : Written [] g := ending_of_blank hg
  rw [← List.append_nil ts]
  exact (h.congr hstops).written hend

theorem uncommented_cons {c : Char} {cs : List Char} (h : ∀ t, c :: cs ≠ '/' :: '/' :: t) :
    uncommented (c :: cs) = c :: uncommented cs := by
  apply uncommented.eq_3
  rintro t rfl rfl
  exact h t rfl

theorem uncommented_append {u : List Char} (h : '/' ∉ u) (r : List Char) :
    uncommented (u ++ r) = u ++ uncommented r := by
  induction u with
  | nil => rfl
  | cons c u ih =>
    rw [List.mem_cons, not_or] at h
    rw [List.cons_append, uncommented_cons fun t ht => h.1 (List.cons.inj ht).1.symm, ih h.2]
    rfl

/-- What is left of a line at its end is skipped: blanks, and perhaps a comment. -/
theorem uncommented_ending {u rest : List Char} (hu : '/' ∉ u) (h : Ending rest) :
    ∃ g, Blank g ∧ uncommented (u ++ rest) = u ++ g := by
  obtain ⟨g, hg, rfl | ⟨t, rfl, -⟩⟩ := h
  · refine ⟨rest, hg, ?_⟩
    have hall : '/' ∉ u ++ rest := by simp [hu, hg.not_mem (c := '/') rfl]
    simpa [uncommented] using uncommented_append hall []
  · refine ⟨g, hg, ?_⟩
    rw [uncommented_append hu, uncommented_append (hg.not_mem rfl), uncommented, List.append_nil]

theorem afterGap_eq_self {c : Char} {cs : List Char} (h : afterGap (c :: cs) = c :: cs) :
    isBlank c = false ∧ ∀ t, c :: cs ≠ '/' :: '/' :: t := by
  have hzero : gapLength (c :: cs) = 0 := by
    have hlen := congrArg List.length h
    rw [afterGap, List.length_drop, List.length_cons] at hlen
    omega
  constructor
  · by_contra hblank
    rw [gapLength_cons_blank cs (Bool.not_eq_false _ ▸ hblank)] at hzero
    omega
  · rintro t ht
    rw [ht, gapLength] at hzero
    omega

/-! ## One token at a place -/

def Place.starts : Place → Char → Bool
  | .start, c | .segment, c => isLower c
  | .name, c => isNameStart c
  | .number, c => Numeral.isDigit c
  | .finish, _ => false

theorem found?_eq_none {k : TokenKind} {n : Nat} : found? k n = none ↔ n = 0 := by
  unfold found?
  split <;> simp_all

theorem length_takeWhile_cons_eq_zero {p : Char → Bool} {c : Char} {cs : List Char} :
    ((c :: cs).takeWhile p).length = 0 ↔ p c = false := by
  rw [List.length_eq_zero_iff, List.takeWhile_cons]
  split <;> simp_all

/-- The next character tells whether a place admits a token. -/
theorem scan?_cons_eq_none {p : Place} {c : Char} {cs : List Char} :
    p.scan? (c :: cs) = none ↔ p.starts c = false := by
  cases p with
  | start =>
    show (if ifGotoText.isPrefixOf (c :: cs) = true then _ else _) = none ↔ _
    by_cases hpre : ifGotoText.isPrefixOf (c :: cs) = true
    · obtain ⟨r, hr⟩ := List.isPrefixOf_iff_prefix.1 hpre
      obtain rfl : 'i' = c := (List.cons.inj hr).1
      rw [if_pos hpre]
      exact iff_of_false nofun nofun
    · rw [if_neg hpre]
      exact found?_eq_none.trans length_takeWhile_cons_eq_zero
  | segment => exact found?_eq_none.trans length_takeWhile_cons_eq_zero
  | name =>
    refine found?_eq_none.trans ?_
    rw [nameLength, Place.starts]
    split <;> simp_all
  | number => exact found?_eq_none.trans length_takeWhile_cons_eq_zero
  | finish => exact iff_of_true rfl rfl

/-- Behind blanks, a token starts with the first character that is none. -/
theorem blank_append_inj {g g' r r' : List Char} {d d' : Char} (hg : Blank g) (hg' : Blank g')
    (hd : isBlank d = false) (hd' : isBlank d' = false) (h : g ++ d :: r = g' ++ d' :: r') :
    d = d' ∧ r = r' := by
  have hblanks : ∀ {g r : List Char} {d : Char}, Blank g → isBlank d = false →
      (g ++ d :: r).takeWhile isBlank = g := by
    intro g r d hg hd
    refine takeWhile_append_of_length (length_takeWhile_append.2 ⟨hg, fun c hc => ?_⟩)
    obtain rfl : d = c := Option.some.inj hc
    exact hd
  obtain rfl : g = g' := by rw [← hblanks (r := r) hg hd, h, hblanks hg' hd']
  exact List.cons.inj (List.append_cancel_left h)

theorem Fits.starts {p : Place} {k : TokenKind} {g g' w rest r : List Char} {d : Char}
    (h : Fits p k w rest) (hg : Blank g) (hg' : Blank g') (hd : isBlank d = false)
    (heq : g ++ d :: r = g' ++ w ++ rest) : p.starts d = true := by
  cases w with
  | nil => exact absurd rfl h.1
  | cons c w =>
    rw [List.append_assoc] at heq
    obtain ⟨rfl, -⟩ := blank_append_inj hg hg' hd (head_of_isNameRest h.head).1 heq
    by_contra hstarts
    exact nomatch (scan?_cons_eq_none.2 (Bool.not_eq_true _ ▸ hstarts)).symm.trans h.2

/-- No two tokens fit one place. -/
theorem Fits.unique {p : Place} {k k' : TokenKind} {g g' w w' rest rest' : List Char} (h : Fits p k w rest)
    (h' : Fits p k' w' rest') (hg : Blank g) (hg' : Blank g') (heq : g ++ w ++ rest = g' ++ w' ++ rest') :
    k = k' ∧ w = w' ∧ rest = rest' := by
  have hafter : w ++ rest = w' ++ rest' := by
    rw [← (afterGap_eq_append h).2 ⟨g, hg, rfl⟩, ← (afterGap_eq_append h').2 ⟨g', hg', rfl⟩, heq]
  have hscan : some (k, w.length) = some (k', w'.length) := by
    rw [← h.2, ← h'.2, hafter]
  obtain ⟨hk, hlen⟩ := Prod.mk.inj (Option.some.inj hscan)
  exact ⟨hk, List.append_inj hafter hlen⟩

theorem eq_slash_of_ending {g r : List Char} {d : Char} (hg : Blank g) (hd : isBlank d = false)
    (h : Ending (g ++ d :: r)) : d = '/' := by
  obtain ⟨g', hg', heq | ⟨t, heq, -⟩⟩ := h
  · exact absurd (by simp [← heq]) (hg'.not_mem hd)
  · exact (blank_append_inj hg hg' hd (by decide) heq).1

theorem not_ending_of_fits {p : Place} {k : TokenKind} {g w rest : List Char} (h : Fits p k w rest)
    (hg : Blank g) : ¬ Ending (g ++ w ++ rest) := by
  intro hend
  have hnil := afterGap_eq_nil.2 hend
  rw [(afterGap_eq_append h).2 ⟨g, hg, rfl⟩] at hnil
  exact h.1 (List.append_eq_nil_iff.1 hnil).1

/-- Blanks, `if` and a hyphen: not a word any more, but perhaps the start of `if-goto`. -/
def Hyphened (text : List Char) : Prop := ∃ g, Blank g ∧ text = g ++ "if-".toList

theorem not_hyphened {u : List Char} {c : Char} (h : c ≠ '-') : ¬ Hyphened (u ++ [c]) := by
  rintro ⟨g, -, heq⟩
  exact h (by simpa using congrArg List.getLast? heq)

/-- No token starts with a hyphen, and no blank is one. -/
theorem exists_cons_ne_hyphen {p : Place} {k : TokenKind} {g w rest : List Char} (h : Fits p k w rest) (hg : Blank g) :
    ∃ x y, g ++ w = x :: y ∧ x ≠ '-' := by
  cases g with
  | nil =>
    cases w with
    | nil => exact absurd rfl h.1
    | cons c w =>
      refine ⟨c, w, rfl, ?_⟩
      rintro rfl
      exact absurd h.head (by decide)
  | cons c g =>
    refine ⟨c, g ++ w, rfl, ?_⟩
    rintro rfl
    exact hg.not_mem rfl List.mem_cons_self

/-- What fits at the start of a line depends on the next character only, the word `if` apart. -/
theorem Fits.congr_start {k : TokenKind} {g w rest r : List Char} {d : Char} (h : Fits .start k w rest)
    (hd : rest.head? = some d) (hg : Blank g) (hhyphen : ¬ Hyphened (g ++ w ++ [d])) :
    Fits .start k w (d :: r) := by
  obtain ⟨hkind, hspells, hstops, hword⟩ := fits_first.1 h
  have hstops' : k.Stops (d :: r) := fun c hc => hstops c (hd.trans hc)
  refine fits_first.2 ⟨hkind, hspells, hstops', ?_⟩
  rintro rfl
  refine ⟨(hword rfl).1, fun hpre => hhyphen ⟨g, hg, ?_⟩⟩
  obtain ⟨rfl, r', hr⟩ := Phrase.hyphen_of_ifGoto hspells hstops' hpre
  obtain rfl : d = '-' := (List.cons.inj hr).1
  rw [List.append_assoc]
  rfl

/-! ## Places to be filled -/

def Place.kind : Place → TokenKind
  | .name => .name
  | .number => .number
  | _ => .word

/-- The places inside a command, which admit one kind of token each. -/
def Place.Inner (p : Place) : Prop := p = .segment ∨ p = .name ∨ p = .number

theorem fits_inner {p : Place} (h : p.Inner) {k : TokenKind} {w rest : List Char} :
    Fits p k w rest ↔ k = p.kind ∧ p.kind.Spells w ∧ p.kind.Stops rest := by
  rcases h with rfl | rfl | rfl
  · exact fits_segment
  · exact fits_name
  · exact fits_number

theorem Fits.congr_inner {p : Place} (hp : p.Inner) {k : TokenKind} {w rest r : List Char} {d : Char}
    (h : Fits p k w rest) (hd : rest.head? = some d) : Fits p k w (d :: r) := by
  obtain ⟨hk, hspells, hstops⟩ := (fits_inner hp).1 h
  exact (fits_inner hp).2 ⟨hk, hspells, fun c hc => hstops c (hd.trans hc)⟩

/-- A text in which places are filled starts with a token for the first of them. -/
theorem exists_fits_of_written {p : Place} (hp : p.Inner) {ps : List Place}
    {vs : List (TokenKind × List Char)} {cs : List Char}
    (hvs : vs.map Prod.fst = (p :: ps).map Place.kind) (h : Written vs cs) :
    ∃ k g w rest us, us.map Prod.fst = ps.map Place.kind ∧ cs = g ++ w ++ rest ∧ Blank g ∧
      Fits p k w rest ∧ Written us rest := by
  obtain ⟨⟨k, w⟩, us, rfl, rfl, hus⟩ := List.map_eq_cons_iff.1 hvs
  obtain ⟨g, rest, hcs, hg, hspells, hstops, hrest⟩ := h
  exact ⟨p.kind, g, w, rest, us, hus, hcs, hg, (fits_inner hp).2 ⟨rfl, hspells, hstops⟩, hrest⟩

def Place.sample (p : Place) : TokenKind × List Char := (p.kind, if p = .number then ['0'] else ['x'])

theorem spells_sample (p : Place) : p.sample.1.Spells p.sample.2 := by
  have hname : IsName ['x'] := ⟨'x', [], rfl, rfl, fun _ h => nomatch h⟩
  cases p with
  | name => exact hname
  | _ => exact ⟨List.cons_ne_nil _ _, List.all_eq_true.1 rfl⟩

theorem newline_not_mem_samples (ps : List Place) : '\n' ∉ spaced (ps.map Place.sample) := by
  intro h
  obtain ⟨t, ht, hmem⟩ := List.mem_flatMap.1 h
  obtain ⟨p, -, rfl⟩ := List.mem_map.1 ht
  have hall : ∀ p : Place, '\n' ∉ ' ' :: p.sample.2 := by
    intro p
    cases p <;> decide
  exact hall p hmem

/-- The places behind the first token of a command. -/
def TokenKind.places : TokenKind → List Place
  | .push | .pop => [.segment, .number]
  | .label | .goto | .ifGoto => [.name]
  | .function | .call => [.name, .number]
  | .ret | .word | .name | .number => []

theorem inner_of_mem_places {k : TokenKind} : ∀ p ∈ k.places, p.Inner := by
  show ∀ p ∈ k.places, p = .segment ∨ p = .name ∨ p = .number
  cases k <;> decide

theorem eq_single_of_kinds {vs : List (TokenKind × List Char)} {k : TokenKind}
    (h : vs.map Prod.fst = [k]) : ∃ w, vs = [(k, w)] := by
  obtain ⟨⟨k', w⟩, rest, rfl, rfl, hrest⟩ := List.map_eq_cons_iff.1 h
  obtain rfl := List.map_eq_nil_iff.1 hrest
  exact ⟨w, rfl⟩

theorem eq_pair_of_kinds {vs : List (TokenKind × List Char)} {k k' : TokenKind}
    (h : vs.map Prod.fst = [k, k']) : ∃ w w', vs = [(k, w), (k', w')] := by
  obtain ⟨⟨k, w⟩, rest, rfl, rfl, hrest⟩ := List.map_eq_cons_iff.1 h
  obtain ⟨w', rfl⟩ := eq_single_of_kinds hrest
  exact ⟨w, w', rfl⟩

end Line

namespace Phrase
open Line

/-- The first token tells which places follow, and whatever fills them makes a phrase. -/
theorem exists_tokens_eq {k : TokenKind} {w : List Char} {vs : List (TokenKind × List Char)}
    (hk : k ≠ .name ∧ k ≠ .number) (hspells : k.Spells w) (hword : k = .word → w ∉ keywords)
    (hvs : vs.map Prod.fst = k.places.map Place.kind) :
    ∃ p : Phrase, p.tokens = (k, w) :: vs ∧ ∀ v, p = .operate v → v ∉ keywords := by
  cases k with
  | push =>
    obtain rfl : w = "push".toList := hspells
    obtain ⟨s, ds, rfl⟩ := eq_pair_of_kinds hvs
    exact ⟨.push s ds, rfl, fun _ h => nomatch h⟩
  | pop =>
    obtain rfl : w = "pop".toList := hspells
    obtain ⟨s, ds, rfl⟩ := eq_pair_of_kinds hvs
    exact ⟨.pop s ds, rfl, fun _ h => nomatch h⟩
  | label =>
    obtain rfl : w = "label".toList := hspells
    obtain ⟨n, rfl⟩ := eq_single_of_kinds hvs
    exact ⟨.label n, rfl, fun _ h => nomatch h⟩
  | goto =>
    obtain rfl : w = "goto".toList := hspells
    obtain ⟨n, rfl⟩ := eq_single_of_kinds hvs
    exact ⟨.goto n, rfl, fun _ h => nomatch h⟩
  | ifGoto =>
    obtain rfl : w = "if-goto".toList := hspells
    obtain ⟨n, rfl⟩ := eq_single_of_kinds hvs
    exact ⟨.ifGoto n, rfl, fun _ h => nomatch h⟩
  | function =>
    obtain rfl : w = "function".toList := hspells
    obtain ⟨n, ds, rfl⟩ := eq_pair_of_kinds hvs
    exact ⟨.function n ds, rfl, fun _ h => nomatch h⟩
  | call =>
    obtain rfl : w = "call".toList := hspells
    obtain ⟨n, ds, rfl⟩ := eq_pair_of_kinds hvs
    exact ⟨.call n ds, rfl, fun _ h => nomatch h⟩
  | ret =>
    obtain rfl : w = "return".toList := hspells
    obtain rfl := List.map_eq_nil_iff.1 hvs
    exact ⟨.ret, rfl, fun _ h => nomatch h⟩
  | word =>
    obtain rfl := List.map_eq_nil_iff.1 hvs
    refine ⟨.operate w, rfl, fun v h => ?_⟩
    cases h
    exact hword rfl
  | name => exact absurd rfl hk.1
  | number => exact absurd rfl hk.2

theorem kinds_of_tokens {p : Phrase} {k : TokenKind} {w : List Char} {vs : List (TokenKind × List Char)}
    (h : p.tokens = (k, w) :: vs) : vs.map Prod.fst = k.places.map Place.kind := by
  cases p <;> cases h <;> rfl

end Phrase

end HackVm
