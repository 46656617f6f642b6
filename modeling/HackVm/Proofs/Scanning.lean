import HackVm.Proofs.Grammar
import Mathlib.Data.List.TakeWhile

/-!
# Reading tokens

What the reader finds next in a line is what the language says is there.

* `afterGap_eq_nil`, `afterGap_eq_append` : what is left of a line behind blanks and a comment;
* `Fits` : a place admits a token (`fits_first`, `fits_segment`, `fits_name`, `fits_number` say which);
* `Cursor.next?_eq_none`, `Cursor.next?_eq_some`, `Cursor.exists_next?` : the next token of a line;
* `Cursor.next_written` : reading a token is splitting it off the line.
-/

namespace HackVm

namespace Line

/-! ## Gaps -/

def afterGap (cs : List Char) : List Char := cs.drop (gapLength cs)

theorem blank_nil : Blank [] := fun _ h => nomatch h

theorem gapLength_cons_blank {c : Char} (cs : List Char) (h : isBlank c = true) :
    gapLength (c :: cs) = gapLength cs + 1 := by
  have hc : c ≠ '/' := by
    rintro rfl
    exact absurd h (by decide)
  rw [gapLength, if_pos h]
  intro _ hslash
  exact absurd hslash hc

theorem afterGap_blank {g : List Char} (rest : List Char) (h : Blank g) :
    afterGap (g ++ rest) = afterGap rest := by
  induction g with
  | nil => rfl
  | cons c g ih =>
    rw [Blank, List.forall_mem_cons] at h
    rw [List.cons_append, afterGap, gapLength_cons_blank _ h.1, List.drop_succ_cons]
    exact ih h.2

theorem drop_length_takeWhile (p : Char → Bool) (cs : List Char) :
    cs.drop (cs.takeWhile p).length = cs.dropWhile p := by
  have h : cs.takeWhile p ++ cs.dropWhile p = cs := List.takeWhile_append_dropWhile
  calc cs.drop (cs.takeWhile p).length
      = (cs.takeWhile p ++ cs.dropWhile p).drop (cs.takeWhile p).length := by rw [h]
    _ = cs.dropWhile p := List.drop_left

theorem afterGap_comment (t : List Char) :
    afterGap ('/' :: '/' :: t) = t.dropWhile (· != '\n') := by
  rw [afterGap, gapLength, Nat.add_comm, List.drop_succ_cons, List.drop_succ_cons]
  exact drop_length_takeWhile _ t

theorem afterGap_other {c : Char} {cs : List Char} (h : isBlank c = false)
    (hcomment : ∀ t, c :: cs ≠ '/' :: '/' :: t) : afterGap (c :: cs) = c :: cs := by
  have hzero : gapLength (c :: cs) = 0 := by
    rw [gapLength, if_neg (by rw [h]; exact Bool.false_ne_true)]
    rintro t rfl rfl
    exact hcomment t rfl
  rw [afterGap, hzero, List.drop_zero]

/-- Behind its blanks, a text is at its end, at a comment or at something else. -/
theorem blanks_cases (cs : List Char) : ∃ g rest, cs = g ++ rest ∧ Blank g ∧
    (rest = [] ∨ (∃ t, rest = '/' :: '/' :: t) ∨ (rest ≠ [] ∧ afterGap rest = rest)) := by
  induction cs with
  | nil => exact ⟨[], [], rfl, blank_nil, .inl rfl⟩
  | cons c cs ih =>
    by_cases hc : isBlank c = true
    · obtain ⟨g, rest, rfl, hg, hrest⟩ := ih
      exact ⟨c :: g, rest, rfl, List.forall_mem_cons.2 ⟨hc, hg⟩, hrest⟩
    · refine ⟨[], c :: cs, rfl, blank_nil, .inr ?_⟩
      by_cases hcomment : ∃ t, c :: cs = '/' :: '/' :: t
      · exact .inl hcomment
      · refine .inr ⟨List.cons_ne_nil _ _, afterGap_other (Bool.eq_false_iff.2 hc) ?_⟩
        exact fun t ht => hcomment ⟨t, ht⟩

theorem afterGap_eq_nil {cs : List Char} : afterGap cs = [] ↔ Ending cs := by
  constructor
  · intro h
    obtain ⟨g, rest, rfl, hg, hrest⟩ := blanks_cases cs
    rw [afterGap_blank _ hg] at h
    refine ⟨g, hg, ?_⟩
    rcases hrest with rfl | ⟨t, rfl⟩ | ⟨hne, heq⟩
    · exact .inl (List.append_nil g)
    · rw [afterGap_comment, List.dropWhile_eq_nil_iff] at h
      exact .inr ⟨t, rfl, fun hmem => absurd (h _ hmem) (by decide)⟩
    · exact absurd (heq.symm.trans h) hne
  · rintro ⟨g, hg, rfl | ⟨t, rfl, ht⟩⟩
    · rw [← List.append_nil cs, afterGap_blank [] hg]
      rfl
    · rw [afterGap_blank _ hg, afterGap_comment, List.dropWhile_eq_nil_iff]
      intro c hc
      rw [bne_iff_ne]
      rintro rfl
      exact ht hc

/-- A character that may stand in a token is not skipped. -/
theorem afterGap_eq_cons {cs r : List Char} {c : Char} (hb : isBlank c = false) (hs : c ≠ '/')
    (hn : c ≠ '\n') : afterGap cs = c :: r ↔ ∃ g, Blank g ∧ cs = g ++ c :: r := by
  constructor
  · intro h
    obtain ⟨g, rest, rfl, hg, hrest⟩ := blanks_cases cs
    rw [afterGap_blank _ hg] at h
    refine ⟨g, hg, ?_⟩
    rcases hrest with rfl | ⟨t, rfl⟩ | ⟨-, heq⟩
    · cases h
    · -- A comment ends before a newline, which starts no token.
      rw [afterGap_comment] at h
      have hhead := List.head?_dropWhile_not (· != '\n') t
      rw [h] at hhead
      exact absurd (by simpa using hhead) hn
    · rw [← h, heq]
  · rintro ⟨g, hg, rfl⟩
    rw [afterGap_blank _ hg]
    refine afterGap_other hb fun t ht => hs ?_
    exact (List.cons.inj ht).1

/-! ## Tokens -/

/-- A place admits the token `w` of kind `k` in front of `rest`. -/
def Fits (p : Place) (k : TokenKind) (w rest : List Char) : Prop :=
  w ≠ [] ∧ p.scan? (w ++ rest) = some (k, w.length)

theorem found?_eq_some {k k' : TokenKind} {m n : Nat} :
    found? k m = some (k', n) ↔ m ≠ 0 ∧ k = k' ∧ m = n := by
  unfold found?
  by_cases h : m = 0
  · simp [h]
  · simp [h]

/-- A prefix is the longest run of characters of a class if it is one and nothing behind it goes on. -/
theorem length_takeWhile_append {p : Char → Bool} {w rest : List Char} :
    ((w ++ rest).takeWhile p).length = w.length ↔
      (∀ c ∈ w, p c = true) ∧ ∀ c, rest.head? = some c → p c = false := by
  induction w with
  | nil =>
    cases rest with
    | nil => simp
    | cons c rest => by_cases h : p c = true <;> simp [h]
  | cons c w ih =>
    rw [List.cons_append, List.takeWhile_cons, List.forall_mem_cons]
    by_cases h : p c = true
    · rw [if_pos h, List.length_cons, List.length_cons, Nat.add_right_cancel_iff, ih]
      simp [h]
    · rw [if_neg h]
      simp [h]

theorem takeWhile_append_of_length {p : Char → Bool} {w rest : List Char}
    (h : ((w ++ rest).takeWhile p).length = w.length) : (w ++ rest).takeWhile p = w := by
  have hp : (w ++ rest).takeWhile p <+: w ++ rest := List.takeWhile_prefix p
  exact (List.prefix_of_prefix_length_le hp (List.prefix_append w rest) h.le).eq_of_length h

theorem fits_run {k k' : TokenKind} {p : Char → Bool} {w rest : List Char} :
    w ≠ [] ∧ found? k ((w ++ rest).takeWhile p).length = some (k', w.length) ↔
      k' = k ∧ (w ≠ [] ∧ ∀ c ∈ w, p c = true) ∧ ∀ c, rest.head? = some c → p c = false := by
  rw [found?_eq_some, length_takeWhile_append]
  constructor
  · rintro ⟨hw, -, hk, hall, hstop⟩
    exact ⟨hk.symm, ⟨hw, hall⟩, hstop⟩
  · rintro ⟨hk, ⟨hw, hall⟩, hstop⟩
    refine ⟨hw, ?_, hk.symm, hall, hstop⟩
    rw [length_takeWhile_append.2 ⟨hall, hstop⟩]
    exact fun h => hw (List.eq_nil_of_length_eq_zero h)

theorem fits_segment {k : TokenKind} {w rest : List Char} :
    Fits .segment k w rest ↔ k = .word ∧ TokenKind.word.Spells w ∧ TokenKind.word.Stops rest := fits_run

theorem fits_number {k : TokenKind} {w rest : List Char} :
    Fits .number k w rest ↔ k = .number ∧ TokenKind.number.Spells w ∧ TokenKind.number.Stops rest :=
  fits_run

theorem fits_name {k : TokenKind} {w rest : List Char} :
    Fits .name k w rest ↔ k = .name ∧ TokenKind.name.Spells w ∧ TokenKind.name.Stops rest := by
  unfold Fits Place.scan?
  rw [found?_eq_some]
  cases w with
  | nil =>
    constructor
    · rintro ⟨h, -⟩
      exact absurd rfl h
    · rintro ⟨-, ⟨c, cs, h, -⟩, -⟩
      cases h
  | cons c w =>
    rw [List.cons_append, nameLength]
    by_cases hc : isNameStart c = true
    · rw [if_pos hc, List.length_cons, Nat.add_right_cancel_iff, length_takeWhile_append]
      constructor
      · rintro ⟨-, -, hk, hall, hstop⟩
        exact ⟨hk.symm, ⟨c, w, rfl, hc, hall⟩, hstop⟩
      · rintro ⟨hk, ⟨d, ds, heq, -, hall⟩, hstop⟩
        obtain ⟨rfl, rfl⟩ := List.cons.inj heq
        exact ⟨List.cons_ne_nil _ _, Nat.succ_ne_zero _, hk.symm, hall, hstop⟩
    · rw [if_neg hc]
      constructor
      · rintro ⟨-, h, -⟩
        exact absurd rfl h
      · rintro ⟨-, ⟨d, ds, heq, hd, -⟩, -⟩
        obtain ⟨rfl, rfl⟩ := List.cons.inj heq
        exact absurd hd hc

theorem fits_start {k : TokenKind} {w rest : List Char} :
    Fits .start k w rest ↔ (k = .ifGoto ∧ w = ifGotoText) ∨
      (¬ ifGotoText <+: w ++ rest ∧ k = (keyword? w).getD .word ∧ TokenKind.word.Spells w ∧
        TokenKind.word.Stops rest) := by
  unfold Fits Place.scan?
  by_cases hp : ifGotoText <+: w ++ rest
  · rw [if_pos (List.isPrefixOf_iff_prefix.2 hp)]
    constructor
    · rintro ⟨-, h⟩
      obtain ⟨rfl, hlen⟩ := Prod.mk.inj (Option.some.inj h)
      refine .inl ⟨rfl, ?_⟩
      have hw : ifGotoText <+: w := List.prefix_of_prefix_length_le hp (List.prefix_append w rest) hlen.le
      exact (hw.eq_of_length hlen).symm
    · rintro (⟨rfl, rfl⟩ | ⟨hnot, -⟩)
      · exact ⟨by decide, rfl⟩
      · exact absurd hp hnot
  · rw [if_neg (mt List.isPrefixOf_iff_prefix.1 hp)]
    constructor
    · intro h
      have hword := takeWhile_append_of_length (found?_eq_some.1 h.2).2.2
      obtain ⟨hk, hspells, hstops⟩ := fits_run.1 h
      rw [hword] at hk
      exact .inr ⟨hp, hk, hspells, hstops⟩
    · rintro (⟨-, rfl⟩ | ⟨-, hk, hspells, hstops⟩)
      · exact absurd (List.prefix_append ifGotoText rest) hp
      · have hword := takeWhile_append_of_length (length_takeWhile_append.2 ⟨hspells.2, hstops⟩)
        refine fits_run.2 ⟨?_, hspells, hstops⟩
        rw [hword]
        exact hk

def keywordKinds : List (List Char × TokenKind) :=
  [("push".toList, .push), ("pop".toList, .pop), ("label".toList, .label), ("goto".toList, .goto),
    ("function".toList, .function), ("call".toList, .call), ("return".toList, .ret)]

theorem lookup_cons_eq {w v : List Char} {k : TokenKind} (ks : List (List Char × TokenKind)) :
    List.lookup w ((v, k) :: ks) = if w = v then some k else ks.lookup w := by
  by_cases h : w = v
  · rw [if_pos h, h, List.lookup_cons_self]
  · rw [if_neg h, List.lookup_cons, beq_eq_false_iff_ne.2 h]

theorem keyword?_eq_lookup (w : List Char) : keyword? w = keywordKinds.lookup w := by
  unfold keyword? keywordKinds
  simp only [lookup_cons_eq, List.lookup_nil]

theorem keyword?_eq_some {w : List Char} {k : TokenKind} (h : keyword? w = some k) :
    k.Spells w ∧ k ≠ .word ∧ k ≠ .name ∧ k ≠ .number ∧ k.goesOn = isLower := by
  have hall : ∀ x ∈ keywordKinds, x.2.Spells x.1 ∧ x.2 ≠ .word ∧ x.2 ≠ .name ∧ x.2 ≠ .number ∧
      x.2.goesOn = isLower := by
    simp [keywordKinds, TokenKind.Spells]
    exact ⟨rfl, rfl, rfl, rfl, rfl, rfl, rfl⟩
  rw [keyword?_eq_lookup, List.lookup_eq_some_iff] at h
  obtain ⟨l₁, l₂, hl, -⟩ := h
  refine hall (w, k) ?_
  rw [hl]
  exact List.mem_append_right _ List.mem_cons_self

theorem keyword?_eq_none {w : List Char} : keyword? w = none ↔ w ∉ keywords := by
  rw [keyword?_eq_lookup, List.lookup_eq_none_iff]
  simp [keywordKinds, keywords]

theorem keyword_first {w rest : List Char} {k : TokenKind} (h : (w, k) ∈ keywordKinds)
    (hs : TokenKind.word.Stops rest) :
    ¬ ifGotoText <+: w ++ rest ∧ k = (keyword? w).getD .word ∧ TokenKind.word.Spells w ∧
      TokenKind.word.Stops rest := by
  have hall : ∀ x ∈ keywordKinds, keyword? x.1 = some x.2 ∧ x.1.all isLower = true ∧
      x.1.head?.isSome ∧ x.1.head? ≠ some 'i' := by decide
  obtain ⟨hk, hlower, hhead, hi⟩ := hall (w, k) h
  obtain ⟨c, w, rfl⟩ : ∃ c v, w = c :: v := by
    cases w with
    | nil => cases hhead
    | cons c v => exact ⟨c, v, rfl⟩
  refine ⟨?_, by rw [hk]; rfl, ⟨List.cons_ne_nil _ _, List.all_eq_true.1 hlower⟩, hs⟩
  rintro ⟨r, hr⟩
  have hc : 'i' = c := (List.cons.inj hr).1
  exact hi (congrArg some hc.symm)

/-- What may stand first in a line: `if-goto`, a keyword, or a word that is neither of them. -/
theorem fits_first {k : TokenKind} {w rest : List Char} :
    Fits .start k w rest ↔ (k ≠ .name ∧ k ≠ .number) ∧ k.Spells w ∧ k.Stops rest ∧
      (k = .word → w ∉ keywords ∧ ¬ ifGotoText <+: w ++ rest) := by
  rw [fits_start]
  constructor
  · rintro (⟨rfl, rfl⟩ | ⟨hp, rfl, hspells, hstops⟩)
    · exact ⟨by decide, rfl, fun _ _ => rfl, fun h => nomatch h⟩
    · cases hw : keyword? w with
      | none => exact ⟨by decide, hspells, hstops, fun _ => ⟨keyword?_eq_none.1 hw, hp⟩⟩
      | some k =>
        obtain ⟨hk, hword, hname, hnumber, hgoes⟩ := keyword?_eq_some hw
        refine ⟨⟨hname, hnumber⟩, hk, fun c hc => ?_, fun h => absurd h hword⟩
        rw [Option.getD_some, hgoes]
        exact hstops c hc
  · rintro ⟨⟨hname, hnumber⟩, hspells, hstops, hword⟩
    cases k with
    | word =>
      obtain ⟨hkey, hp⟩ := hword rfl
      exact .inr ⟨hp, by rw [keyword?_eq_none.2 hkey]; rfl, hspells, hstops⟩
    | ifGoto => exact .inl ⟨rfl, hspells⟩
    | name => exact absurd rfl hname
    | number => exact absurd rfl hnumber
    | _ =>
      -- The other kinds are keywords, and none of them starts like `if-goto`.
      cases hspells
      exact .inr (keyword_first (by decide) hstops)

theorem nameLength_le (cs : List Char) : nameLength cs ≤ cs.length := by
  cases cs with
  | nil => exact Nat.le_refl 0
  | cons c cs =>
    rw [nameLength]
    split
    · exact Nat.succ_le_succ (List.takeWhile_prefix isNameRest).length_le
    · exact Nat.zero_le _

theorem found?_le {k k' : TokenKind} {m n l : Nat} (h : found? k m = some (k', n)) (hm : m ≤ l) :
    0 < n ∧ n ≤ l := by
  obtain ⟨h0, -, rfl⟩ := found?_eq_some.1 h
  exact ⟨Nat.pos_of_ne_zero h0, hm⟩

theorem scan?_le {p : Place} {cs : List Char} {k : TokenKind} {n : Nat}
    (h : p.scan? cs = some (k, n)) : 0 < n ∧ n ≤ cs.length := by
  cases p with
  | start =>
    unfold Place.scan? at h
    by_cases hp : ifGotoText.isPrefixOf cs = true
    · rw [if_pos hp] at h
      cases h
      exact ⟨by decide, (List.isPrefixOf_iff_prefix.1 hp).length_le⟩
    · rw [if_neg hp] at h
      exact found?_le h (List.takeWhile_prefix isLower).length_le
  | segment => exact found?_le h (List.takeWhile_prefix isLower).length_le
  | name => exact found?_le h (nameLength_le cs)
  | number => exact found?_le h (List.takeWhile_prefix Numeral.isDigit).length_le
  | finish => cases h

/-- What is scanned fits. -/
theorem fits_of_scan? {p : Place} {cs : List Char} {k : TokenKind} {n : Nat}
    (h : p.scan? cs = some (k, n)) : Fits p k (cs.take n) (cs.drop n) := by
  obtain ⟨hpos, hle⟩ := scan?_le h
  have hlen : (cs.take n).length = n := by rw [List.length_take, Nat.min_eq_left hle]
  constructor
  · intro hnil
    rw [hnil, List.length_nil] at hlen
    omega
  · rw [List.take_append_drop, hlen]
    exact h

/-- A token starts with a character that no gap has. -/
theorem head_of_isNameRest {c : Char} (h : isNameRest c = true) :
    isBlank c = false ∧ c ≠ '/' ∧ c ≠ '\n' := by
  refine ⟨?_, ?_, ?_⟩
  · by_contra hb
    rw [Bool.not_eq_false, isBlank] at hb
    simp only [Bool.or_eq_true, beq_iff_eq] at hb
    rcases hb with ((rfl | rfl) | rfl) | rfl <;> exact absurd h (by decide)
  · rintro rfl
    exact absurd h (by decide)
  · rintro rfl
    exact absurd h (by decide)

theorem isNameRest_of_isLower {c : Char} (h : isLower c = true) : isNameRest c = true := by
  simp [isNameRest, isNameStart, h]

theorem Fits.head {p : Place} {k : TokenKind} {c : Char} {w rest : List Char}
    (h : Fits p k (c :: w) rest) : isNameRest c = true := by
  cases p with
  | start =>
    rcases fits_start.1 h with ⟨-, hw⟩ | ⟨-, -, ⟨-, hall⟩, -⟩
    · obtain rfl : c = 'i' := (List.cons.inj hw).1
      decide
    · exact isNameRest_of_isLower (hall c List.mem_cons_self)
  | segment =>
    obtain ⟨-, ⟨-, hall⟩, -⟩ := fits_segment.1 h
    exact isNameRest_of_isLower (hall c List.mem_cons_self)
  | name =>
    obtain ⟨-, ⟨d, ds, heq, hd, -⟩, -⟩ := fits_name.1 h
    obtain ⟨rfl, rfl⟩ := List.cons.inj heq
    simp [isNameRest, hd]
  | number =>
    obtain ⟨-, ⟨-, hall⟩, -⟩ := fits_number.1 h
    simp [isNameRest, hall c List.mem_cons_self]
  | finish => exact nomatch h.2

/-- Behind blanks, a line goes on with a token. -/
theorem afterGap_eq_append {p : Place} {k : TokenKind} {cs w rest : List Char} (h : Fits p k w rest) :
    afterGap cs = w ++ rest ↔ ∃ g, Blank g ∧ cs = g ++ w ++ rest := by
  cases w with
  | nil => exact absurd rfl h.1
  | cons c w =>
    obtain ⟨hb, hs, hn⟩ := head_of_isNameRest h.head
    simp only [List.append_assoc]
    exact afterGap_eq_cons hb hs hn

/-! ## The next token -/

namespace Cursor

theorem next?_eq_none (c : Cursor) (p : Place) (last : Option Token) :
    c.next? p last = .ok none ↔ Ending c.rest := by
  rw [← afterGap_eq_nil]
  have hrest : c.skipGap.rest = afterGap c.rest := rfl
  unfold next?
  simp only [hrest]
  by_cases h : afterGap c.rest = []
  · simp [h]
  · rw [if_neg (by simpa using h)]
    constructor
    · intro hok
      split at hok
      · cases hok
      · split at hok <;> cases hok
    · intro hnil
      exact absurd hnil h

/-- The next token is the longest one behind the blanks that fits the place. -/
theorem next?_eq_some {c c' : Cursor} {p : Place} {last : Option Token} {t : Token}
    (h : c.next? p last = .ok (some (t, c'))) :
    ∃ g, c.rest = g ++ t.text ++ c'.rest ∧ Blank g ∧ Fits p t.kind t.text c'.rest := by
  have hrest : c.skipGap.rest = afterGap c.rest := rfl
  unfold next? at h
  simp only [hrest] at h
  split at h
  · cases h
  · split at h
    · next k n hscan =>
      cases h
      have hfits : Fits p k ((afterGap c.rest).take n) ((afterGap c.rest).drop n) := fits_of_scan? hscan
      obtain ⟨g, hg, hsplit⟩ := (afterGap_eq_append hfits).1 (List.take_append_drop n _).symm
      exact ⟨g, hsplit, hg, hfits⟩
    · split at h <;> cases h

theorem exists_next? {c : Cursor} {p : Place} {k : TokenKind} {g w rest : List Char}
    (last : Option Token) (hc : c.rest = g ++ w ++ rest) (hg : Blank g) (h : Fits p k w rest) :
    ∃ t c', c.next? p last = .ok (some (t, c')) ∧ t.kind = k ∧ t.text = w ∧ c'.rest = rest := by
  have hrest : c.skipGap.rest = w ++ rest := (afterGap_eq_append h).2 ⟨g, hg, hc⟩
  refine ⟨c.skipGap.token k w.length, c.skipGap.advance w.length, ?_, rfl, ?_, ?_⟩
  · unfold next?
    simp only [hrest, h.2]
    rw [if_neg]
    simpa using fun hw => absurd hw h.1
  · show c.skipGap.rest.take w.length = w
    rw [hrest, List.take_left]
  · show c.skipGap.rest.drop w.length = rest
    rw [hrest, List.drop_left]

theorem next_eq_ok {c : Cursor} {p : Place} {last : Token} {r : Token × Cursor} :
    c.next p last = .ok r ↔ c.next? p (some last) = .ok (some r) := by
  unfold next
  cases c.next? p (some last) with
  | error e => simp
  | ok o => cases o <;> simp

theorem finish_eq_ok {c : Cursor} {last : Token} {u : Unit} : c.finish last = .ok u ↔ Ending c.rest := by
  rw [← next?_eq_none c .finish (some last)]
  unfold finish
  cases h : c.next? .finish (some last) with
  | error e => simp
  | ok o =>
    cases o with
    | none => simp
    | some r =>
      -- No token fits behind a whole command.
      obtain ⟨t, c'⟩ := r
      obtain ⟨g, -, -, hfits⟩ := next?_eq_some h
      exact nomatch hfits.2

/-- Where a place admits one kind of token, reading it is splitting it off the line. -/
theorem next_written {p : Place} {k : TokenKind}
    (hp : ∀ {k' w rest}, Fits p k' w rest ↔ k' = k ∧ k.Spells w ∧ k.Stops rest)
    (c : Cursor) (last : Token) {w : List Char} {ts : List (TokenKind × List Char)} :
    (∃ r, c.next p last = .ok r ∧ r.1.text = w ∧ Written ts r.2.rest) ↔
      Written ((k, w) :: ts) c.rest := by
  constructor
  · rintro ⟨⟨t, c'⟩, hr, rfl, hts⟩
    obtain ⟨g, hc, hg, hfits⟩ := next?_eq_some (next_eq_ok.1 hr)
    obtain ⟨-, hspells, hstops⟩ := hp.1 hfits
    exact ⟨g, c'.rest, hc, hg, hspells, hstops, hts⟩
  · rintro ⟨g, rest, hc, hg, hspells, hstops, hts⟩
    obtain ⟨t, c', hr, -, htext, hrest⟩ := exists_next? (some last) hc hg (hp.2 ⟨rfl, hspells, hstops⟩)
    exact ⟨(t, c'), next_eq_ok.2 hr, htext, by rw [hrest]; exact hts⟩

end Cursor

end Line

end HackVm
