import HackVm.Proofs.Complaints
import HackVm.Proofs.OpenLines

/-!
# Where a line goes wrong

What has been read of a line when it goes wrong is the start of some line of the language, because every
place that is still to be filled can be filled behind a blank. With the next character it is not any more,
because the tokens read so far are those of every line that starts so. So an error points to the first
character that rules the line out.

* `Misreading.Points` : where an error may point;
* `Cursor.through` : the reading of what has to follow the first token of a line;
* `Underway` : what is known when some tokens have been read (`underway_first`, `Underway.step`);
* `Underway.points` : what a run of the reader may say from there on;
* `read_points` : errors point to where the line goes wrong.
-/

namespace HackVm

namespace Line

/-! ## Statements -/

/-- In this column stands a character that is neither blank nor in a comment. The text before it can be
completed, and with the character it cannot, unless that could start a comment behind a whole line or is the
hyphen of `if-goto`. -/
def GoesWrong (line : List Char) (column : Nat) : Prop :=
  ∃ i c, column = i + 1 ∧ (uncommented line)[i]? = some c ∧ isBlank c = false ∧
    (∃ l, WellFormed l ∧ line.take i <+: l) ∧
    ∀ l, WellFormed l → line.take (i + 1) <+: l →
      c = '/' ∧ WellFormed (line.take i) ∨ Hyphened (line.take (i + 1))

/-- The text is made of the first tokens of a phrase but not of all of them, and the last one starts in this
column. -/
def LastStarts (text : List Char) (column : Nat) : Prop :=
  ∃ (p : Phrase) (ts more : List (TokenKind × List Char)) (k : TokenKind) (before w blanks : List Char),
    p.tokens = ts ++ (k, w) :: more ∧ more ≠ [] ∧ text = before ++ w ++ blanks ∧ Blank blanks ∧
    Written ts before ∧ Written (ts ++ [(k, w)]) text ∧ column = before.length + 1

/-- Without its comment, the line can be completed but is not complete, and its last token starts in this
column. -/
def EndsEarly (line : List Char) (column : Nat) : Prop :=
  (∃ l, WellFormed l ∧ uncommented line <+: l ∧ uncommented line ≠ l) ∧ LastStarts (uncommented line) column

/-- The error points where the line goes wrong, or to its last token if it ends too early. -/
def Misreading.Points (line : List Char) (m : Misreading) : Prop :=
  match m with
  | .ending .. => EndsEarly line m.column
  | .token .. | .character .. => GoesWrong line m.column

/-! ## The next token -/

namespace Cursor

theorem passed_skipGap {c : Cursor} {g r : List Char} (h : c.rest = g ++ r) (hr : afterGap c.rest = r) :
    c.skipGap.passed.reverse = c.passed.reverse ++ g := by
  have hline : c.skipGap.passed.reverse ++ afterGap c.rest = c.passed.reverse ++ c.rest := c.line_skipGap
  rw [hr, h, ← List.append_assoc] at hline
  exact List.append_cancel_right hline

/-- A token starts behind the gap, and so does what stands in its place. -/
theorem column_next? (c : Cursor) (p : Place) (last : Option Token) :
    (∀ t c', c.next? p last = .ok (some (t, c')) → t.column = c.skipGap.column) ∧
    ∀ m, c.next? p last = .error m →
      c.skipGap.rest ≠ [] ∧ p.scan? c.skipGap.rest = none ∧
        ∀ line, GoesWrong line c.skipGap.column → m.Points line := by
  unfold next?
  by_cases hend : c.skipGap.rest = []
  · simp [hend]
  · simp only [List.isEmpty_iff, if_neg hend]
    split
    · refine ⟨fun t c' h => ?_, fun m h => nomatch h⟩
      cases h
      rfl
    · next hscan =>
      split
      · refine ⟨fun t c' h => (nomatch h), fun m h => ?_⟩
        cases h
        exact ⟨hend, hscan, fun line hline => hline⟩
      · refine ⟨fun t c' h => (nomatch h), fun m h => ?_⟩
        cases h
        exact ⟨hend, hscan, fun line hline => hline⟩

theorem column_of_passed {c : Cursor} {u : List Char} (h : c.passed.reverse = u) :
    c.column = u.length + 1 := by
  rw [← h, List.length_reverse]
  rfl

/-- A token is taken off with the blanks before it, and it starts behind them. -/
theorem next?_eq_append {c c' : Cursor} {p : Place} {last : Option Token} {t : Token}
    (h : c.next? p last = .ok (some (t, c'))) :
    ∃ g, Blank g ∧ c.rest = g ++ t.text ++ c'.rest ∧ Fits p t.kind t.text c'.rest ∧
      c'.passed.reverse = c.passed.reverse ++ g ++ t.text ∧ t.column = (c.passed.reverse ++ g).length + 1 := by
  obtain ⟨g, hrest, hg, hfits⟩ := next?_eq_some h
  have hafter : afterGap c.rest = t.text ++ c'.rest := (afterGap_eq_append hfits).2 ⟨g, hg, hrest⟩
  have hgap : c.skipGap.passed.reverse = c.passed.reverse ++ g :=
    passed_skipGap (by rw [hrest, List.append_assoc]) hafter
  have hline : c'.passed.reverse ++ c'.rest = c.passed.reverse ++ c.rest :=
    ((c.reports_next? p last).2 t c' h).2
  refine ⟨g, hg, hrest, hfits, ?_, ?_⟩
  · rw [hrest, ← List.append_assoc, ← List.append_assoc] at hline
    exact List.append_cancel_right hline
  · rw [(c.column_next? p last).1 t c' h, column_of_passed hgap]

/-- An error stands behind blanks, at a character that is not skipped and starts no token there. -/
theorem next?_eq_error {c : Cursor} {p : Place} {last : Option Token} {m : Misreading}
    (h : c.next? p last = .error m) (hline : '\n' ∉ c.rest) :
    ∃ g d r, Blank g ∧ c.rest = g ++ d :: r ∧ isBlank d = false ∧ (∀ t, d :: r ≠ '/' :: '/' :: t) ∧
      p.starts d = false ∧ ∀ line, GoesWrong line ((c.passed.reverse ++ g).length + 1) → m.Points line := by
  obtain ⟨hne, hscan, hpoints⟩ := (c.column_next? p last).2 m h
  obtain ⟨g, r, hrest, hg, hr⟩ := blanks_cases c.rest
  have hskip : c.skipGap.rest = afterGap r := by
    rw [← afterGap_blank r hg, ← hrest]
    rfl
  rcases hr with rfl | ⟨t, rfl⟩ | ⟨hne', hself⟩
  · exact absurd hskip hne
  · -- Without a newline a comment goes to the end of the line.
    rw [hrest] at hline
    rw [hskip, afterGap_comment] at hne
    refine absurd (List.dropWhile_eq_nil_iff.2 fun c hc => ?_) hne
    rw [bne_iff_ne]
    rintro rfl
    simp [hc] at hline
  · obtain ⟨d, r, rfl⟩ := List.exists_cons_of_ne_nil hne'
    obtain ⟨hd, hcomment⟩ := afterGap_eq_self hself
    rw [hskip, hself] at hscan
    refine ⟨g, d, r, hg, hrest, hd, hcomment, scan?_cons_eq_none.1 hscan, ?_⟩
    have hgap : c.skipGap.passed.reverse = c.passed.reverse ++ g :=
      passed_skipGap hrest (by rw [hrest, afterGap_blank _ hg, hself])
    rw [← column_of_passed hgap]
    exact hpoints

/-- Reads one token for each place, and then the end of the line. -/
def through (c : Cursor) : List Place → Token → Except Misreading Unit
  | [], last => c.finish last
  | p :: ps, last => do
    let (t, c) ← c.next p last
    c.through ps t

theorem next_eq_error {c : Cursor} {p : Place} {last : Token} {m : Misreading}
    (h : c.next p last = .error m) :
    c.next? p (some last) = .error m ∨ m = .ending p last ∧ Ending c.rest := by
  unfold next at h
  split at h
  · cases h
  · next hnone =>
    cases h
    exact .inr ⟨rfl, (next?_eq_none c p (some last)).1 hnone⟩
  · next hm =>
    cases h
    exact .inl hm

theorem finish_eq_error {c : Cursor} {last : Token} {m : Misreading} (h : c.finish last = .error m) :
    c.next? .finish (some last) = .error m := by
  unfold finish at h
  split at h
  · cases h
  · next hm =>
    cases h
    exact hm

end Cursor

end Line

namespace Phrase
open Line

/-! ## Reading place by place -/

theorem map_map_unit {α β : Type} (x : Except Misreading α) (f : α → β) :
    (x.map f).map (fun _ => ()) = x.map fun _ => () := by
  cases x <;> rfl

theorem finish_through (t : Token) (c : Cursor) : (c.finish t).map (fun _ => ()) = c.through [] t := by
  unfold Cursor.through
  cases c.finish t <;> rfl

/-- The last place of a command, and the end of the line. -/
theorem readLast_through {α : Type} (p : Place) (f : Token → α) (t : Token) (c : Cursor) :
    (do let (x, c) ← c.next p t
        c.finish x
        return f x : Except Misreading α).map (fun _ => ()) = c.through [p] t := by
  unfold Cursor.through
  cases c.next p t with
  | error m => rfl
  | ok r =>
    show (r.2.finish r.1 >>= fun _ => pure (f r.1)).map (fun _ => ()) = r.2.finish r.1
    cases r.2.finish r.1 <;> rfl

theorem readName_through (t : Token) (c : Cursor) :
    (readName t c).map (fun _ => ()) = c.through [.name] t := readLast_through .name Token.text t c

theorem readAccess_through (t : Token) (c : Cursor) :
    (readAccess t c).map (fun _ => ()) = c.through [.segment, .number] t := by
  unfold readAccess Cursor.through
  cases c.next .segment t with
  | error m => rfl
  | ok r => exact readLast_through .number (fun x => (r.1.text, x.text)) r.1 r.2

theorem readCount_through (t : Token) (c : Cursor) :
    (readCount t c).map (fun _ => ()) = c.through [.name, .number] t := by
  unfold readCount Cursor.through
  cases c.next .name t with
  | error m => rfl
  | ok r => exact readLast_through .number (fun x => (r.1.text, x.text)) r.1 r.2

/-- A phrase is read by filling the places that follow its first token. -/
theorem readFrom_through (t : Token) (c : Cursor) :
    (readFrom t c).map (fun _ => ()) = c.through t.kind.places t := by
  obtain ⟨kind, text, column⟩ := t
  cases kind with
  | push => exact (map_map_unit _ _).trans (readAccess_through _ c)
  | pop => exact (map_map_unit _ _).trans (readAccess_through _ c)
  | label => exact (map_map_unit _ _).trans (readName_through _ c)
  | goto => exact (map_map_unit _ _).trans (readName_through _ c)
  | ifGoto => exact (map_map_unit _ _).trans (readName_through _ c)
  | function => exact (map_map_unit _ _).trans (readCount_through _ c)
  | call => exact (map_map_unit _ _).trans (readCount_through _ c)
  | _ => exact (map_map_unit _ _).trans (finish_through _ c)

end Phrase

namespace Line

/-! ## What has been read -/

/-- The tokens `ts` have been read, `last` being the last of them. Whatever fills the places `ps` makes a
phrase of them, and every line that goes on with the same character fills these places. -/
structure Underway (c : Cursor) (ts : List (TokenKind × List Char)) (last : Token) (ps : List Place) :
    Prop where
  leads : Leads ts c.passed.reverse c.rest
  last : ∃ before u g, ts = before ++ [(last.kind, last.text)] ∧ Blank g ∧
    Leads before u (g ++ last.text ++ c.rest) ∧ c.passed.reverse = u ++ g ++ last.text ∧
    last.column = (u ++ g).length + 1
  opens : ∀ vs : List (TokenKind × List Char), vs.map Prod.fst = ps.map Place.kind →
    ∃ p : Phrase, p.tokens = ts ++ vs ∧ ∀ w, p = .operate w → w ∉ keywords
  only : ∀ d r, c.rest.head? = some d → ¬ Hyphened (c.passed.reverse ++ [d]) →
    WellFormed (c.passed.reverse ++ d :: r) →
    ∃ vs : List (TokenKind × List Char), vs.map Prod.fst = ps.map Place.kind ∧ Written vs (d :: r)

theorem Underway.step {c c' : Cursor} {ts : List (TokenKind × List Char)} {last t : Token} {p : Place}
    {ps : List Place} (h : Underway c ts last (p :: ps)) (hp : p.Inner) (ht : c.next p last = .ok (t, c')) :
    Underway c' (ts ++ [(t.kind, t.text)]) t ps := by
  obtain ⟨g, hg, hrest, hfits, hpassed, hcolumn⟩ := Cursor.next?_eq_append (Cursor.next_eq_ok.1 ht)
  obtain ⟨hkind, hspells, hstops⟩ := (fits_inner hp).1 hfits
  rw [← hkind] at hspells hstops
  have hleads : Leads ts c.passed.reverse (g ++ t.text ++ c'.rest) := by
    rw [← hrest]
    exact h.leads
  refine ⟨?_, ⟨ts, c.passed.reverse, g, rfl, hg, hleads, hpassed, hcolumn⟩, fun vs hvs => ?_,
    fun d r hd _ hline => ?_⟩
  · rw [hpassed]
    exact hleads.snoc hg hspells hstops
  · rw [List.append_assoc]
    apply h.opens
    rw [List.singleton_append, List.map_cons, List.map_cons, hvs, hkind]
  · -- The place is filled in the other line too, and by the same token.
    obtain ⟨x, y, hxy, hx⟩ := exists_cons_ne_hyphen hfits hg
    have hhead : c.rest.head? = some x := by rw [hrest, hxy]; rfl
    rw [hpassed, List.append_assoc, List.append_assoc, ← List.append_assoc g, hxy, List.cons_append] at hline
    obtain ⟨vs, hvs, hw⟩ := h.only x (y ++ d :: r) hhead (not_hyphened hx) hline
    rw [← List.cons_append, ← hxy] at hw
    obtain ⟨k, g', w, rest', us, hus, heq, hg', hfits', hw⟩ := exists_fits_of_written hp hvs hw
    obtain ⟨-, -, rfl⟩ := (hfits.congr_inner hp hd).unique hfits' hg hg' heq
    exact ⟨us, hus, hw⟩

/-- Blanks behind the tokens read, and then a token for each place that is left, make a line. -/
theorem Underway.wellFormed {c : Cursor} {ts : List (TokenKind × List Char)} {last : Token} {ps : List Place}
    {g : List Char} (h : Underway c ts last ps) (hline : '\n' ∉ c.line) (hg : Blank g) :
    WellFormed (c.passed.reverse ++ g ++ spaced (ps.map Place.sample)) := by
  have hpassed : '\n' ∉ c.passed.reverse := fun hmem => hline (List.mem_append_left _ hmem)
  have hspells : ∀ t ∈ ps.map Place.sample, t.1.Spells t.2 := by
    intro t ht
    obtain ⟨p, -, rfl⟩ := List.mem_map.1 ht
    exact spells_sample p
  have hleads : Leads ts c.passed.reverse (g ++ spaced (ps.map Place.sample)) :=
    h.leads.congr fun k => stops_blank hg (stops_spaced k _)
  obtain ⟨p, hp, hoperate⟩ := h.opens (ps.map Place.sample) (by
    rw [List.map_map]
    rfl)
  refine ⟨?_, .inr ⟨p, ?_, hoperate⟩⟩
  · rw [List.mem_append, List.mem_append, not_or, not_or]
    exact ⟨⟨hpassed, hg.not_mem rfl⟩, newline_not_mem_samples ps⟩
  · rw [hp, List.append_assoc]
    exact hleads.written (written_blank hg (written_spaced hspells))

/-- In another line that starts so, the places that are left cannot be filled. -/
theorem Underway.ruledOut {c : Cursor} {ts : List (TokenKind × List Char)} {last : Token} {ps : List Place}
    {g r r' : List Char} {d : Char} (h : Underway c ts last ps) (hps : ∀ p ∈ ps, p.Inner)
    (hc : c.rest = g ++ d :: r) (hg : Blank g) (hd : isBlank d = false)
    (hstarts : (ps.headD .finish).starts d = false) (hhyphen : ¬ Hyphened (c.passed.reverse ++ g ++ [d]))
    (hline : WellFormed (c.passed.reverse ++ g ++ d :: r')) : d = '/' ∧ ps = [] := by
  have hwritten : ∃ vs : List (TokenKind × List Char), vs.map Prod.fst = ps.map Place.kind ∧
      Written vs (g ++ d :: r') := by
    cases g with
    | nil =>
      rw [List.append_nil] at hhyphen hline
      exact h.only d r' (by rw [hc]; rfl) hhyphen hline
    | cons x g =>
      have hx : x ≠ '-' := by
        rintro rfl
        exact hg.not_mem rfl List.mem_cons_self
      rw [List.append_assoc] at hline
      exact h.only x (g ++ d :: r') (by rw [hc]; rfl) (not_hyphened hx) hline
  obtain ⟨vs, hvs, hw⟩ := hwritten
  cases ps with
  | nil =>
    obtain rfl := List.map_eq_nil_iff.1 hvs
    exact ⟨eq_slash_of_ending hg hd hw, rfl⟩
  | cons p ps =>
    obtain ⟨k, g', w, rest', us, -, heq, hg', hfits, -⟩ :=
      exists_fits_of_written (hps p List.mem_cons_self) hvs hw
    exact nomatch hstarts.symm.trans (hfits.starts hg hg' hd heq)

/-- At the place of an error the line goes wrong. -/
theorem goesWrong_of_rest {u g r : List Char} {d : Char} (hu : '/' ∉ u) (hg : Blank g)
    (hd : isBlank d = false) (hcomment : ∀ t, d :: r ≠ '/' :: '/' :: t)
    (h : ∃ more, WellFormed (u ++ g ++ more))
    (hout : ∀ r', WellFormed (u ++ g ++ d :: r') → ¬ Hyphened (u ++ g ++ [d]) →
      d = '/' ∧ WellFormed (u ++ g)) :
    GoesWrong (u ++ (g ++ d :: r)) ((u ++ g).length + 1) := by
  have hslash : '/' ∉ u ++ g := by simp [hu, hg.not_mem (c := '/') rfl]
  obtain ⟨more, hmore⟩ := h
  rw [← List.append_assoc]
  have htake : (u ++ g ++ d :: r).take ((u ++ g).length + 1) = u ++ g ++ [d] := by
    rw [List.append_cons, List.take_left']
    rw [List.length_append]
    rfl
  refine ⟨(u ++ g).length, d, rfl, ?_, hd, ⟨u ++ g ++ more, hmore, ?_⟩, ?_⟩
  · rw [uncommented_append hslash, uncommented_cons hcomment]
    simp
  · rw [List.take_left]
    exact List.prefix_append _ _
  · rw [htake, List.take_left]
    rintro l hl ⟨r', rfl⟩
    by_cases hhyphen : Hyphened (u ++ g ++ [d])
    · exact .inr hhyphen
    · rw [← List.append_cons] at hl
      exact .inl (hout r' hl hhyphen)

theorem Underway.points_of_next? {c : Cursor} {ts : List (TokenKind × List Char)} {last : Token}
    {ps : List Place} (h : Underway c ts last ps) (hps : ∀ p ∈ ps, p.Inner) (hline : '\n' ∉ c.line)
    {o : Option Token} {m : Misreading} (hm : c.next? (ps.headD .finish) o = .error m) : m.Points c.line := by
  have hrest : '\n' ∉ c.rest := fun hmem => hline (List.mem_append_right _ hmem)
  obtain ⟨g, d, r, hg, hc, hd, hcomment, hstarts, hpoints⟩ := Cursor.next?_eq_error hm hrest
  apply hpoints
  have hmore := h.wellFormed hline hg
  rw [Cursor.line, hc]
  refine goesWrong_of_rest h.leads.slash_not_mem hg hd hcomment ⟨_, hmore⟩ fun r' hr' hhyphen => ?_
  obtain ⟨hslash, rfl⟩ := h.ruledOut hps hc hg hd hstarts hhyphen hr'
  exact ⟨hslash, by simpa [spaced] using hmore⟩

theorem Underway.endsEarly {c : Cursor} {ts : List (TokenKind × List Char)} {last : Token} {p : Place}
    {ps : List Place} (h : Underway c ts last (p :: ps)) (hline : '\n' ∉ c.line) (hend : Ending c.rest) :
    EndsEarly c.line last.column := by
  obtain ⟨g, hg, htext⟩ := uncommented_ending h.leads.slash_not_mem hend
  rw [EndsEarly, Cursor.line, htext]
  have hmore : spaced ((p :: ps).map Place.sample) ≠ [] := List.cons_ne_nil _ _
  refine ⟨⟨_, h.wellFormed hline hg, List.prefix_append _ _, ?_⟩, ?_⟩
  · rw [ne_eq, List.self_eq_append_right]
    exact hmore
  · obtain ⟨before, u, gap, hts, hgap, hbefore, hpassed, hcolumn⟩ := h.last
    obtain ⟨q, hq, -⟩ := h.opens ((p :: ps).map Place.sample) (by
      rw [List.map_map]
      rfl)
    refine ⟨q, before, (p :: ps).map Place.sample, last.kind, u ++ gap, last.text, g, ?_,
      List.cons_ne_nil _ _, by rw [hpassed], hg, ?_, ?_, hcolumn⟩
    · rw [hq, hts, List.append_assoc]
      rfl
    · exact hbefore.written_of_blank hgap
    · rw [← hts]
      exact h.leads.written_of_blank hg

theorem Underway.points {c : Cursor} {ts : List (TokenKind × List Char)} {last : Token} {ps : List Place}
    (h : Underway c ts last ps) (hps : ∀ p ∈ ps, p.Inner) (hline : '\n' ∉ c.line) {m : Misreading}
    (hm : c.through ps last = .error m) : m.Points c.line := by
  induction ps generalizing c ts last with
  | nil => exact h.points_of_next? hps hline (Cursor.finish_eq_error hm)
  | cons p ps ih =>
    rw [Cursor.through] at hm
    cases hnext : c.next p last with
    | error e =>
      rw [hnext] at hm
      cases hm
      rcases Cursor.next_eq_error hnext with herror | ⟨rfl, hend⟩
      · exact h.points_of_next? hps hline herror
      · exact h.endsEarly hline hend
    | ok r =>
      obtain ⟨t, c'⟩ := r
      rw [hnext] at hm
      have hsame : c'.line = c.line := ((c.reports_next? p (some last)).2 t c' (Cursor.next_eq_ok.1 hnext)).2
      rw [← hsame] at hline ⊢
      obtain ⟨hp, hps⟩ := List.forall_mem_cons.1 hps
      exact ih (h.step hp hnext) hps hline hm

/-- The first token of a line. -/
theorem underway_first {line : List Char} {t : Token} {c : Cursor}
    (h : (Cursor.ofLine line).next? .start none = .ok (some (t, c))) :
    Underway c [(t.kind, t.text)] t t.kind.places := by
  obtain ⟨g, hg, -, hfits, hpassed, hcolumn⟩ := Cursor.next?_eq_append h
  obtain ⟨hkind, hspells, hstops, hword⟩ := fits_first.1 hfits
  have hleads : Leads [] [] (g ++ t.text ++ c.rest) := rfl
  refine ⟨?_, ⟨[], [], g, rfl, hg, hleads, hpassed, hcolumn⟩, fun vs hvs => ?_,
    fun d r hd hhyphen hother => ?_⟩
  · rw [hpassed]
    exact hleads.snoc hg hspells hstops
  · exact Phrase.exists_tokens_eq hkind hspells (fun hk => (hword hk).1) hvs
  · rw [hpassed] at hhyphen hother
    have hfits' : Fits .start t.kind t.text (d :: r) := hfits.congr_start hd hg hhyphen
    rcases hother.2 with hend | ⟨q, hq⟩
    · exact absurd hend (not_ending_of_fits hfits' hg)
    · obtain ⟨k, g', w, rest, vs, hvs, heq, hblank, hfirst, hw⟩ := hq.exists_fits
      obtain ⟨rfl, -, rfl⟩ := hfits'.unique hfirst hg hblank heq
      exact ⟨vs, Phrase.kinds_of_tokens hvs, hw⟩

theorem points_of_phrase {line : List Char} {m : Misreading} (hline : '\n' ∉ line)
    (h : Phrase.read line = .error m) : m.Points line := by
  unfold Phrase.read at h
  split at h
  · next e hnext =>
    -- Nothing has been read yet, and blanks by themselves are a line.
    cases h
    obtain ⟨g, d, r, hg, hc, hd, hcomment, hstarts, hpoints⟩ := Cursor.next?_eq_error hnext hline
    obtain rfl : line = g ++ d :: r := hc
    apply hpoints
    have hblank : WellFormed g := ⟨hg.not_mem rfl, .inl (ending_of_blank hg)⟩
    refine goesWrong_of_rest (u := []) List.not_mem_nil hg hd hcomment ⟨[], by simpa using hblank⟩
      fun r' hr' _ => ⟨?_, hblank⟩
    rcases hr'.2 with hend | ⟨q, hq⟩
    · exact eq_slash_of_ending hg hd hend
    · obtain ⟨k, g', w, rest, vs, -, heq, hg', hfirst, -⟩ := hq.exists_fits
      exact nomatch hstarts.symm.trans (hfirst.starts hg hg' hd heq)
  · cases h
  · next t c hnext =>
    have hsame : c.line = line := (((Cursor.ofLine line).reports_next? .start none).2 t c hnext).2
    have hthrough : c.through t.kind.places t = .error m := by
      rw [← Phrase.readFrom_through]
      cases hread : Phrase.readFrom t c with
      | error e =>
        rw [hread] at h
        cases h
        rfl
      | ok q =>
        rw [hread] at h
        cases h
    rw [← hsame] at hline ⊢
    exact (underway_first hnext).points inner_of_mem_places hline hthrough

/-- An error of a line without newlines points to the first place where the line cannot be read on: up to
there it is the start of a line of the language, what stands there is neither blank nor a comment, and with
that character it is the start of none, unless the character could have been the first of a comment or of
the end of `if-goto`. If the line ends too early, it is the start of a longer line of the language, and the
error points to its last token. -/
theorem read_points {line : List Char} {number : Int} {m : Misreading} (hline : '\n' ∉ line)
    (h : read line number = .error (.misread m)) : m.Points line := by
  apply points_of_phrase hline
  unfold read at h
  split at h
  · next hm =>
    cases h
    exact hm
  · cases h
  · split at h <;> cases h

/-- A number stands where a name is expected, and the other line ends before its number, which only its
comment has. -/
theorem read_points_number :
    (read "function 7".toList 1 = .error (.misread (.token ⟨.number, ['7'], 10⟩ .name
        (some ⟨.function, "function".toList, 1⟩))) ∧ GoesWrong "function 7".toList 10) ∧
    read "push local// 3".toList 1 = .error (.misread (.ending .number ⟨.word, "local".toList, 6⟩)) ∧
      EndsEarly "push local// 3".toList 6 := by
  have hname : read "function 7".toList 1 = .error (.misread (.token ⟨.number, ['7'], 10⟩ .name
      (some ⟨.function, "function".toList, 1⟩))) := by decide
  have hend : read "push local// 3".toList 1 =
      .error (.misread (.ending .number ⟨.word, "local".toList, 6⟩)) := by decide
  exact ⟨⟨hname, read_points (by decide) hname⟩, hend, read_points (by decide) hend⟩

end Line

end HackVm
