import HackVm.Proofs.Outcome
import HackVm.Proofs.Scanning

/-!
# Lines are read as the language says

* `Phrase.resolve_eq_ok`, `Phrase.resolve_eq_error` : the command of a phrase;
* `Phrase.read_eq_none`, `Phrase.read_eq_some` : the phrase of a line;
* `read_iff_spelled` : the reader and the language agree on every line.
-/

namespace HackVm

/-! ## The command of a phrase -/

theorem Segment.ofWord?_eq_some {w : String} {s : Segment} : ofWord? w = some s ↔ s.word = w := by
  constructor
  · intro h
    simpa using List.find?_some h
  · rintro rfl
    exact ofWord?_word s

theorem Operator.ofWord?_eq_some {w : String} {o : Operator} : ofWord? w = some o ↔ o.word = w := by
  constructor
  · intro h
    simpa using List.find?_some h
  · rintro rfl
    exact ofWord?_word o

namespace Phrase
open Line

theorem segmentOf_word (s : Segment) : segmentOf s.word.toList = .ok s := by
  unfold segmentOf Segment.read
  rw [String.ofList_toList, Segment.ofWord?_word]
  rfl

theorem segmentOf_unknown {w : List Char} (h : ∀ s : Segment, s.word.toList ≠ w) :
    segmentOf w = .error (.fault (.unknownSegment (String.ofList w))) := by
  have hnone : Segment.ofWord? (String.ofList w) = none := by
    by_contra hsome
    obtain ⟨s, hs⟩ := Option.ne_none_iff_exists'.1 hsome
    refine h s ?_
    rw [Segment.ofWord?_eq_some.1 hs, String.toList_ofList]
  unfold segmentOf Segment.read
  rw [hnone]
  rfl

theorem value_of_le {ds : List Char} (h : ds.length ≤ 4300) : value ds = .ok (decimal ds) := by
  unfold value Numeral.ofDigits
  rw [if_neg (show ¬ Numeral.limit < ds.length from Nat.not_lt.2 h)]
  rfl

theorem value_of_lt {ds : List Char} (h : 4300 < ds.length) :
    value ds = .error (.overlong (.read ds.length)) := by
  unfold value Numeral.ofDigits
  rw [if_pos (show Numeral.limit < ds.length from h)]

theorem resolve_pop {s : Segment} (hs : s ≠ .constant) (ds : List Char) :
    resolve (.pop s.word.toList ds) = (value ds).map (.pop s) := by
  rw [resolve, segmentOf_word]
  show (if s = .constant then _ else _) = _
  rw [if_neg hs]
  cases value ds <;> rfl

theorem resolve_operate_unknown {w : List Char} (h : ∀ o : Operator, o.word.toList ≠ w) :
    resolve (.operate w) = .error (.fault (.unknownOperator (String.ofList w))) := by
  have hnone : Operator.ofWord? (String.ofList w) = none := by
    by_contra hsome
    obtain ⟨o, ho⟩ := Option.ne_none_iff_exists'.1 hsome
    refine h o ?_
    rw [Operator.ofWord?_eq_some.1 ho, String.toList_ofList]
  rw [resolve, Operator.read, hnone]
  rfl

theorem Denotes.resolve_eq {p : Phrase} {c : Command} (h : Denotes p c) : p.resolve = .ok c := by
  cases h with
  | push s h => rw [resolve, segmentOf_word, value_of_le h]; rfl
  | pop hs h => rw [resolve_pop hs, value_of_le h]; rfl
  | operate o => rw [resolve, Operator.read, String.ofList_toList, Operator.ofWord?_word]; rfl
  | label n => rfl
  | goto n => rfl
  | ifGoto n => rfl
  | function n h => rw [resolve, value_of_le h]; rfl
  | call n h => rw [resolve, value_of_le h]; rfl
  | ret => rfl

theorem Refused.resolve_eq {p : Phrase} {e : Cause} (h : Refused p e) : p.resolve = .error e := by
  cases h with
  | pushSegment ds h => rw [resolve, segmentOf_unknown h]; rfl
  | popSegment ds h => rw [resolve, segmentOf_unknown h]; rfl
  | popConstant ds => rfl
  | operator h => exact resolve_operate_unknown h
  | pushNumber s h => rw [resolve, segmentOf_word, value_of_lt h]; rfl
  | popNumber hs h => rw [resolve_pop hs, value_of_lt h]; rfl
  | functionNumber n h => rw [resolve, value_of_lt h]; rfl
  | callNumber n h => rw [resolve, value_of_lt h]; rfl

theorem denotes_or_refused (p : Phrase) : (∃ c, Denotes p c) ∨ ∃ e, Refused p e := by
  cases p with
  | push w ds =>
    by_cases hw : ∃ s : Segment, s.word.toList = w
    · obtain ⟨s, rfl⟩ := hw
      rcases Nat.lt_or_ge 4300 ds.length with h | h
      · exact .inr ⟨_, .pushNumber s h⟩
      · exact .inl ⟨_, .push s h⟩
    · exact .inr ⟨_, .pushSegment ds fun s hs => hw ⟨s, hs⟩⟩
  | pop w ds =>
    by_cases hw : ∃ s : Segment, s.word.toList = w
    · obtain ⟨s, rfl⟩ := hw
      by_cases hs : s = .constant
      · subst hs
        exact .inr ⟨_, .popConstant ds⟩
      · rcases Nat.lt_or_ge 4300 ds.length with h | h
        · exact .inr ⟨_, .popNumber hs h⟩
        · exact .inl ⟨_, .pop hs h⟩
    · exact .inr ⟨_, .popSegment ds fun s hs => hw ⟨s, hs⟩⟩
  | operate w =>
    by_cases hw : ∃ o : Operator, o.word.toList = w
    · obtain ⟨o, rfl⟩ := hw
      exact .inl ⟨_, .operate o⟩
    · exact .inr ⟨_, .operator fun o ho => hw ⟨o, ho⟩⟩
  | label n => exact .inl ⟨_, .label n⟩
  | goto n => exact .inl ⟨_, .goto n⟩
  | ifGoto n => exact .inl ⟨_, .ifGoto n⟩
  | function n ds =>
    rcases Nat.lt_or_ge 4300 ds.length with h | h
    · exact .inr ⟨_, .functionNumber n h⟩
    · exact .inl ⟨_, .function n h⟩
  | call n ds =>
    rcases Nat.lt_or_ge 4300 ds.length with h | h
    · exact .inr ⟨_, .callNumber n h⟩
    · exact .inl ⟨_, .call n h⟩
  | ret => exact .inl ⟨_, .ret⟩

theorem resolve_eq_ok {p : Phrase} {c : Command} : p.resolve = .ok c ↔ Denotes p c := by
  refine ⟨fun h => ?_, Denotes.resolve_eq⟩
  rcases denotes_or_refused p with ⟨c', hc⟩ | ⟨e, he⟩
  · obtain rfl : c' = c := Except.ok.inj (hc.resolve_eq.symm.trans h)
    exact hc
  · exact nomatch he.resolve_eq.symm.trans h

theorem resolve_eq_error {p : Phrase} {e : Cause} : p.resolve = .error e ↔ Refused p e := by
  refine ⟨fun h => ?_, Refused.resolve_eq⟩
  rcases denotes_or_refused p with ⟨c, hc⟩ | ⟨e', he⟩
  · exact nomatch hc.resolve_eq.symm.trans h
  · obtain rfl : e' = e := Except.error.inj (he.resolve_eq.symm.trans h)
    exact he

/-! ## The phrase of a line -/

theorem readName_eq_ok {t : Token} {c : Cursor} {n : List Char} :
    readName t c = .ok n ↔ Written [(.name, n)] c.rest := by
  rw [← Cursor.next_written fits_name c t]
  unfold readName
  rw [bind_eq_ok]
  refine exists_congr fun r => and_congr_right fun _ => ?_
  rw [bind_eq_ok]
  constructor
  · rintro ⟨u, hu, hn⟩
    exact ⟨Except.ok.inj hn, Cursor.finish_eq_ok.1 hu⟩
  · rintro ⟨rfl, hend⟩
    exact ⟨(), Cursor.finish_eq_ok.2 hend, rfl⟩

/-- The number at the end of a phrase. -/
theorem readNumber_eq_ok {t : Token} {c : Cursor} {w x ds : List Char} :
    (do let (number, c) ← c.next .number t
        c.finish number
        return (w, number.text) : Except Misreading (List Char × List Char)) = .ok (x, ds) ↔
      w = x ∧ Written [(.number, ds)] c.rest := by
  rw [← Cursor.next_written fits_number c t, bind_eq_ok, ← exists_and_left]
  refine exists_congr fun r => ?_
  rw [and_left_comm]
  refine and_congr_right fun _ => ?_
  rw [bind_eq_ok]
  constructor
  · rintro ⟨u, hu, hn⟩
    cases hn
    exact ⟨rfl, rfl, Cursor.finish_eq_ok.1 hu⟩
  · rintro ⟨rfl, rfl, hend⟩
    exact ⟨(), Cursor.finish_eq_ok.2 hend, rfl⟩

theorem readAccess_eq_ok {t : Token} {c : Cursor} {s ds : List Char} :
    readAccess t c = .ok (s, ds) ↔ Written [(.word, s), (.number, ds)] c.rest := by
  rw [← Cursor.next_written fits_segment c t]
  unfold readAccess
  rw [bind_eq_ok]
  exact exists_congr fun r => and_congr_right fun _ => readNumber_eq_ok

theorem readCount_eq_ok {t : Token} {c : Cursor} {n ds : List Char} :
    readCount t c = .ok (n, ds) ↔ Written [(.name, n), (.number, ds)] c.rest := by
  rw [← Cursor.next_written fits_name c t]
  unfold readCount
  rw [bind_eq_ok]
  exact exists_congr fun r => and_congr_right fun _ => readNumber_eq_ok

/-- What is read behind the first token `k` of a phrase, when only `f` gives phrases that start so. -/
theorem map_eq_ok_iff_written {α : Type} {x : Except Misreading α} {f : α → Phrase} {p : Phrase}
    {k : TokenKind × List Char} {ts : α → List (TokenKind × List Char)} {rest : List Char}
    (hx : ∀ a, x = .ok a ↔ Written (ts a) rest) (hf : ∀ a, (f a).tokens = k :: ts a)
    (hp : ∀ us, p.tokens = k :: us → ∃ a, f a = p) :
    x.map f = .ok p ↔ ∃ us, p.tokens = k :: us ∧ Written us rest := by
  rw [map_eq_ok]
  constructor
  · rintro ⟨a, ha, rfl⟩
    exact ⟨ts a, hf a, (hx a).1 ha⟩
  · rintro ⟨us, hus, hw⟩
    obtain ⟨a, rfl⟩ := hp us hus
    obtain rfl : ts a = us := (List.cons.inj ((hf a).symm.trans hus)).2
    exact ⟨a, (hx a).2 hw, rfl⟩

/-- A phrase goes on behind its first token. -/
theorem readFrom_eq_ok {t : Token} {c : Cursor} {p : Phrase} (hk : t.kind ≠ .name ∧ t.kind ≠ .number)
    (ht : t.kind.Spells t.text) :
    readFrom t c = .ok p ↔ ∃ us, p.tokens = (t.kind, t.text) :: us ∧ Written us c.rest := by
  obtain ⟨kind, text, column⟩ := t
  cases kind with
  | push =>
    cases ht
    refine map_eq_ok_iff_written (fun _ => readAccess_eq_ok) (fun _ => rfl) fun us h => ?_
    cases p with
    | push s ds => exact ⟨(s, ds), rfl⟩
    | _ => cases h
  | pop =>
    cases ht
    refine map_eq_ok_iff_written (fun _ => readAccess_eq_ok) (fun _ => rfl) fun us h => ?_
    cases p with
    | pop s ds => exact ⟨(s, ds), rfl⟩
    | _ => cases h
  | label =>
    cases ht
    refine map_eq_ok_iff_written (fun _ => readName_eq_ok) (fun _ => rfl) fun us h => ?_
    cases p with
    | label n => exact ⟨n, rfl⟩
    | _ => cases h
  | goto =>
    cases ht
    refine map_eq_ok_iff_written (fun _ => readName_eq_ok) (fun _ => rfl) fun us h => ?_
    cases p with
    | goto n => exact ⟨n, rfl⟩
    | _ => cases h
  | ifGoto =>
    cases ht
    refine map_eq_ok_iff_written (fun _ => readName_eq_ok) (fun _ => rfl) fun us h => ?_
    cases p with
    | ifGoto n => exact ⟨n, rfl⟩
    | _ => cases h
  | function =>
    cases ht
    refine map_eq_ok_iff_written (fun _ => readCount_eq_ok) (fun _ => rfl) fun us h => ?_
    cases p with
    | function n ds => exact ⟨(n, ds), rfl⟩
    | _ => cases h
  | call =>
    cases ht
    refine map_eq_ok_iff_written (fun _ => readCount_eq_ok) (fun _ => rfl) fun us h => ?_
    cases p with
    | call n ds => exact ⟨(n, ds), rfl⟩
    | _ => cases h
  | ret =>
    cases ht
    refine map_eq_ok_iff_written (fun _ => Cursor.finish_eq_ok) (fun _ => rfl) fun us h => ?_
    cases p with
    | ret => exact ⟨(), rfl⟩
    | _ => cases h
  | word =>
    refine map_eq_ok_iff_written (fun _ => Cursor.finish_eq_ok) (fun _ => rfl) fun us h => ?_
    cases p with
    | operate w => cases h; exact ⟨(), rfl⟩
    | _ => cases h
  | name => exact absurd rfl hk.1
  | number => exact absurd rfl hk.2

theorem tokens_eq_cons (p : Phrase) : ∃ k w ts, p.tokens = (k, w) :: ts ∧ (k ≠ .name ∧ k ≠ .number) ∧
    (k = .word → p = .operate w ∧ ts = []) := by
  cases p with
  | operate w => exact ⟨_, _, _, rfl, by decide, fun _ => ⟨rfl, rfl⟩⟩
  | _ => exact ⟨_, _, _, rfl, by decide, fun h => nomatch h⟩

/-- A word that is the start of `if-goto` is `if`, and a hyphen follows. -/
theorem hyphen_of_ifGoto {w rest : List Char} (hw : TokenKind.word.Spells w)
    (hs : TokenKind.word.Stops rest) (h : ifGotoText <+: w ++ rest) :
    w = "if".toList ∧ ∃ r, rest = '-' :: r := by
  obtain ⟨r, hr⟩ := h
  have hword : (w ++ rest).takeWhile isLower = w :=
    takeWhile_append_of_length (length_takeWhile_append.2 ⟨hw.2, hs⟩)
  obtain rfl : ['i', 'f'] = w := by
    rw [← hword, ← hr]
    rfl
  exact ⟨rfl, "goto".toList ++ r, (List.cons.inj (List.cons.inj hr).2).2.symm⟩

/-- The word `if` at the end of a line is not the start of `if-goto`. -/
theorem not_ifGoto_of_ending {w rest : List Char} (hw : TokenKind.word.Spells w)
    (hs : TokenKind.word.Stops rest) (hend : Ending rest) : ¬ ifGotoText <+: w ++ rest := by
  intro h
  obtain ⟨-, r, rfl⟩ := hyphen_of_ifGoto hw hs h
  have hnil := afterGap_eq_nil.2 hend
  rw [afterGap_other (by decide) (fun t ht => absurd (List.cons.inj ht).1 (by decide))] at hnil
  cases hnil

/-- The first token of a phrase fits the start of its line. -/
theorem Spelled.exists_fits {p : Phrase} {line : List Char} (h : p.Spelled line) :
    ∃ k g w rest ts, p.tokens = (k, w) :: ts ∧ line = g ++ w ++ rest ∧ Blank g ∧ Fits .start k w rest ∧
      Written ts rest := by
  obtain ⟨hw, hoperate⟩ := h
  obtain ⟨k, w, ts, hts, hk, hword⟩ := tokens_eq_cons p
  rw [hts] at hw
  obtain ⟨g, rest, hline, hg, hspells, hstops, hrest⟩ := hw
  refine ⟨k, g, w, rest, ts, hts, hline, hg, fits_first.2 ⟨hk, hspells, hstops, ?_⟩, hrest⟩
  rintro rfl
  obtain ⟨hp, rfl⟩ := hword rfl
  exact ⟨hoperate w hp, not_ifGoto_of_ending hspells hstops hrest⟩

theorem read_eq_none {line : List Char} : read line = .ok none ↔ Ending line := by
  refine Iff.trans ?_ (Cursor.next?_eq_none (.ofLine line) .start none)
  unfold read
  cases (Cursor.ofLine line).next? .start none with
  | error e => simp
  | ok o =>
    cases o with
    | none => simp
    | some r =>
      rw [map_eq_ok]
      simp

/-- The phrase of a line is the one that the line is written as. -/
theorem read_eq_some {line : List Char} {p : Phrase} : read line = .ok (some p) ↔ Spelled p line := by
  constructor
  · intro h
    unfold read at h
    split at h
    · cases h
    · cases h
    · next t c hnext =>
      obtain ⟨q, hq, hp⟩ := map_eq_ok.1 h
      cases hp
      obtain ⟨g, hline, hg, hfits⟩ := Cursor.next?_eq_some hnext
      obtain ⟨hk, hspells, hstops, hword⟩ := fits_first.1 hfits
      obtain ⟨us, hus, hw⟩ := (readFrom_eq_ok hk hspells).1 hq
      refine ⟨?_, ?_⟩
      · rw [hus]
        exact ⟨g, c.rest, hline, hg, hspells, hstops, hw⟩
      · rintro w rfl
        obtain ⟨hkind, htext⟩ := Prod.mk.inj (List.cons.inj hus).1
        rw [htext]
        exact (hword hkind.symm).1
  · intro h
    obtain ⟨k, g, w, rest, ts, hts, hline, hg, hfits, hrest⟩ := h.exists_fits
    obtain ⟨hk, hspells, -, -⟩ := fits_first.1 hfits
    obtain ⟨t, c, hnext, rfl, rfl, rfl⟩ := Cursor.exists_next? (c := .ofLine line) none hline hg hfits
    unfold read
    rw [hnext]
    exact map_eq_ok.2 ⟨p, (readFrom_eq_ok hk hspells).2 ⟨ts, hts, hrest⟩, rfl⟩

end Phrase

namespace Line

/-! ## The statement of a line -/

theorem read_eq_ok_none {line : List Char} {number : Int} :
    read line number = .ok none ↔ Ending line := by
  rw [← Phrase.read_eq_none]
  unfold read
  cases Phrase.read line with
  | error m => simp
  | ok o =>
    cases o with
    | none => simp
    | some p => cases h : p.resolve <;> simp [h]

theorem read_eq_ok_some {line : List Char} {number : Int} {st : Statement} :
    read line number = .ok (some st) ↔
      st.line = number ∧ ∃ p : Phrase, p.Spelled line ∧ p.Denotes st.command := by
  constructor
  · intro h
    unfold read at h
    split at h
    · cases h
    · cases h
    · next p hp =>
      split at h
      · next c hc =>
        cases h
        exact ⟨rfl, p, Phrase.read_eq_some.1 hp, Phrase.resolve_eq_ok.1 hc⟩
      · cases h
  · rintro ⟨rfl, p, hp, hc⟩
    unfold read
    rw [Phrase.read_eq_some.2 hp]
    simp only [Phrase.resolve_eq_ok.2 hc]

theorem read_eq_rejected {line : List Char} {number : Int} {p : Phrase} {e : Phrase.Cause} :
    read line number = .error (.rejected p e) ↔ p.Spelled line ∧ p.Refused e := by
  constructor
  · intro h
    unfold read at h
    split at h
    · cases h
    · cases h
    · next q hq =>
      split at h
      · cases h
      · next e' he =>
        cases h
        exact ⟨Phrase.read_eq_some.1 hq, Phrase.resolve_eq_error.1 he⟩
  · rintro ⟨hp, he⟩
    unfold read
    rw [Phrase.read_eq_some.2 hp]
    simp only [Phrase.resolve_eq_error.2 he]

theorem read_eq_misread {line : List Char} {number : Int} :
    (∃ m, read line number = .error (.misread m)) ↔
      ¬ Ending line ∧ ∀ p : Phrase, ¬ p.Spelled line := by
  simp only [← Phrase.read_eq_none, ← Phrase.read_eq_some]
  unfold read
  cases Phrase.read line with
  | error m => simp
  | ok o =>
    cases o with
    | none => simp
    | some p => cases h : p.resolve <;> simp [h]

/-- Reading a line gives nothing exactly for blank lines, the statement of its phrase exactly for lines
that are written as a phrase for a command, a refusal exactly for lines that are written as a phrase for
none, and an error exactly for lines that are neither blank nor written as a phrase. -/
theorem read_iff_spelled (line : List Char) (number : Int) :
    (read line number = .ok none ↔ Ending line) ∧
    (∀ st, read line number = .ok (some st) ↔
      st.line = number ∧ ∃ p : Phrase, p.Spelled line ∧ p.Denotes st.command) ∧
    (∀ p e, read line number = .error (.rejected p e) ↔ p.Spelled line ∧ p.Refused e) ∧
    ((∃ m, read line number = .error (.misread m)) ↔
      ¬ Ending line ∧ ∀ p : Phrase, ¬ p.Spelled line) :=
  ⟨read_eq_ok_none, fun _ => read_eq_ok_some, fun _ _ => read_eq_rejected, read_eq_misread⟩

/-- Tokens need no blanks between them. -/
example : read "if-gotoEND// again".toList 3 = .ok (some ⟨3, .ifGoto "END"⟩) := by decide

end Line

end HackVm
