import HackVm.Build.Run
import HackVm.Proofs.Complaints
import HackVm.Proofs.Layout
import HackVm.Proofs.SourceText

/-!
# What a build puts together

A build reads the sources one after the other and gives one emitter the orders of all of them. The first
source that does not go through ends it, whatever comes behind that source.

* `Part`, `Part.orders`, `program` : a source with its statements, and the orders for it and for all;
* `Ends` : everything that can be wrong with a source;
* `buildSource_cases`, `buildAll_cases` : a source goes through or ends the build;
* `buildAll_of_completes` : sources without a fault go through;
* `buildAll_append_of_error`, `buildAll_congr` : what comes behind the end does not matter;
* `buildSources_ends` : a whole build, in blocks of any size;
* `Laid` : the blocks of a listing, each in its place;
* `buildSources_cases` : a build either lays out all commands of all sources in order, or stops at the
  first bad one.
-/

namespace HackVm.Build
open Emitter

/-! ## Orders for sources -/

/-- A source with the statements of its text. -/
structure Part where
  path : Path
  statements : List Statement

def Part.commands (q : Part) : List Command := q.statements.map Statement.command

/-- The orders for a source: its file is entered outside of any function. -/
def Part.orders (q : Part) : List Order := .enter (stem q.path.name) :: q.commands.map .command

def Part.upTo (q : Part) (count : Nat) : Part := { q with statements := q.statements.take count }

/-- The statements are those of the text that is read from the path. -/
def Part.ReadFrom (host : Host) (d : Disk) (block : Option Int) (q : Part) : Prop :=
  ∃ text, readSource host.openText d block q.path = .ok text ∧ Script.read text = .accepted q.statements

/-- Everything that can be wrong with a source. -/
inductive Ends (host : Host) (d : Disk) (block : Option Int) (e : Emitter) (p : Path) : Stop → Prop
  | unread {f : Failure} (h : readSource host.openText d block p = .error f) :
    Ends host d block e p (.failed f)
  | overlong {text : List Char} {phrase : Phrase} {o : Numeral.Overlong}
    (htext : readSource host.openText d block p = .ok text) (h : Script.read text = .overlong phrase o) :
    Ends host d block e p (.failed (.unreadable phrase o))
  | refused {text : List Char} {complaints : List Complaint}
    (htext : readSource host.openText d block p = .ok text) (h : Script.read text = .refused complaints) :
    Ends host d block e p (.refused (complaints.map (.badLine p.name)))
  /-- There is no memory for all of the code. The commands that there is memory for are emitted. -/
  | exhausted {text : List Char} {q : Part} (hpath : q.path = p)
    (htext : readSource host.openText d block p = .ok text) (h : Script.read text = .accepted q.statements)
    (hcapacity : host.capacity e.listing q.commands < q.commands.length)
    (hbefore : e.Completes (q.upTo (host.capacity e.listing q.commands)).orders) :
    Ends host d block e p (.failed .noMemory)
  /-- The statements before the first bad one are emitted. -/
  | fault {text : List Char} {before : List Statement} {s : Statement} {more : List Statement} {f : Fault}
    (htext : readSource host.openText d block p = .ok text)
    (h : Script.read text = .accepted (before ++ s :: more))
    (hbefore : e.Completes (Part.orders ⟨p, before⟩))
    (hs : ((e.after (Part.orders ⟨p, before⟩)).run (.command s.command)).2 = some f) :
    Ends host d block e p (.failed (.fault f))

/-- The code of a source is emitted if there is memory for it, up to the first fault. -/
theorem emitSource_cases (host : Host) (e : Emitter) (q : Part) :
    (e.Completes q.orders ∧ q.commands.length ≤ host.capacity e.listing q.commands ∧
      (emitSource host e q.path q.statements).2 = .ok (e.after q.orders)) ∨
    (host.capacity e.listing q.commands < q.commands.length ∧
      e.Completes (q.upTo (host.capacity e.listing q.commands)).orders ∧
      (emitSource host e q.path q.statements).2 = .error (.failed .noMemory)) ∨
    ∃ before s more f, q.statements = before ++ s :: more ∧ e.Completes (Part.orders ⟨q.path, before⟩) ∧
      ((e.after (Part.orders ⟨q.path, before⟩)).run (.command s.command)).2 = some f ∧
      (emitSource host e q.path q.statements).2 = .error (.failed (.fault f)) := by
  unfold emitSource
  dsimp only
  rw [← Part.commands]
  generalize host.capacity e.listing q.commands = count
  rcases runAll_cases (e.run (.enter (stem q.path.name))).1 (q.commands.take count) with
    ⟨hcompletes, hok⟩ | ⟨before, c, more, f, hsplit, hcompletes, hf, hfault⟩
  · rw [hok]
    by_cases hcount : q.commands.length ≤ count
    · rw [List.take_of_length_le hcount] at hcompletes ⊢
      refine .inl ⟨completes_cons.2 ⟨rfl, hcompletes⟩, hcount, ?_⟩
      simp only [if_pos hcount]
      rfl
    · rw [Part.commands, ← List.map_take] at hcompletes
      refine .inr (.inl ⟨Nat.lt_of_not_le hcount, completes_cons.2 ⟨rfl, hcompletes⟩, ?_⟩)
      simp only [if_neg hcount]
  · rw [Part.commands, ← List.map_take] at hsplit
    obtain ⟨ss, ts, hss, rfl, hts⟩ := List.map_eq_append_iff.1 hsplit
    obtain ⟨s, rest, rfl, rfl, -⟩ := List.map_eq_cons_iff.1 hts
    have hstatements : q.statements = ss ++ s :: (rest ++ q.statements.drop count) := by
      rw [← List.cons_append, ← List.append_assoc, ← hss, List.take_append_drop]
    refine .inr (.inr ⟨ss, s, _, f, hstatements, completes_cons.2 ⟨rfl, hcompletes⟩, hf, ?_⟩)
    split
    · next hrun =>
      rw [hrun] at hfault
      cases hfault
      rfl
    · next hrun =>
      rw [hrun] at hfault
      cases hfault

/-- A source either goes through or ends the build. -/
theorem buildSource_cases (host : Host) (d : Disk) (block : Option Int) (e : Emitter) (p : Path) :
    (∃ q : Part, q.path = p ∧ q.ReadFrom host d block ∧ e.Completes q.orders ∧
      q.commands.length ≤ host.capacity e.listing q.commands ∧
      (buildSource host d block e p).2 = .ok (e.after q.orders)) ∨
    ∃ s, Ends host d block e p s ∧ (buildSource host d block e p).2 = .error s := by
  unfold buildSource
  cases htext : readSource host.openText d block p with
  | error f => exact .inr ⟨_, .unread htext, rfl⟩
  | ok text =>
    dsimp only
    cases hread : Script.read text with
    | overlong phrase o => exact .inr ⟨_, .overlong htext hread, rfl⟩
    | refused complaints => exact .inr ⟨_, .refused htext hread, rfl⟩
    | accepted statements =>
      rcases emitSource_cases host e ⟨p, statements⟩ with
        ⟨hcompletes, hcapacity, hok⟩ | ⟨hcapacity, hbefore, herror⟩ |
        ⟨before, s, more, f, hsplit, hcompletes, hf, herror⟩
      · exact .inl ⟨⟨p, statements⟩, rfl, ⟨text, htext, hread⟩, hcompletes, hcapacity, hok⟩
      · exact .inr ⟨_, .exhausted (q := ⟨p, statements⟩) rfl htext hread hcapacity hbefore, herror⟩
      · obtain rfl : statements = before ++ s :: more := hsplit
        exact .inr ⟨_, .fault htext hread hcompletes hf, herror⟩

theorem buildSource_of_error {host : Host} {d : Disk} {block : Option Int} {p : Path} {f : Failure}
    (h : readSource host.openText d block p = .error f) (e : Emitter) :
    (buildSource host d block e p).2 = .error (.failed f) := by
  simp only [buildSource, h]

theorem buildAll_of_ok {host : Host} {d : Disk} {block : Option Int} {e e' : Emitter} {p : Path}
    (h : (buildSource host d block e p).2 = .ok e') (ps : List Path) :
    buildAll host d block e (p :: ps) =
      ((buildSource host d block e p).1 ++ (buildAll host d block e' ps).1,
        (buildAll host d block e' ps).2) := by
  rw [buildAll]
  cases hsource : buildSource host d block e p with
  | mk events result =>
    rw [hsource] at h
    cases h
    rfl

theorem buildAll_of_error {host : Host} {d : Disk} {block : Option Int} {e : Emitter} {p : Path} {s : Stop}
    (h : (buildSource host d block e p).2 = .error s) (ps : List Path) :
    buildAll host d block e (p :: ps) = ((buildSource host d block e p).1, .error s) := by
  rw [buildAll]
  cases hsource : buildSource host d block e p with
  | mk events result =>
    rw [hsource] at h
    cases h
    rfl

/-- There is memory for the code of each source behind the code of those before it. -/
def Affords (host : Host) (e : Emitter) : List Part → Prop
  | [] => True
  | q :: qs => q.commands.length ≤ host.capacity e.listing q.commands ∧ Affords host (e.after q.orders) qs

theorem affords_ample (e : Emitter) (qs : List Part) : Affords .ample e qs := by
  induction qs generalizing e with
  | nil => trivial
  | cons q qs ih => exact ⟨Nat.le_refl _, ih _⟩

/-- Sources go through one after the other, up to the first that ends the build. -/
theorem buildAll_cases (host : Host) (d : Disk) (block : Option Int) (e : Emitter) (sources : List Path) :
    (∃ qs : List Part, qs.map Part.path = sources ∧ (∀ q ∈ qs, q.ReadFrom host d block) ∧
      Affords host e qs ∧ e.Completes (qs.flatMap Part.orders) ∧
      (buildAll host d block e sources).2 = .ok (e.after (qs.flatMap Part.orders))) ∨
    ∃ (qs : List Part) (p : Path) (more : List Path) (s : Stop),
      sources = qs.map Part.path ++ p :: more ∧ (∀ q ∈ qs, q.ReadFrom host d block) ∧
      e.Completes (qs.flatMap Part.orders) ∧ Ends host d block (e.after (qs.flatMap Part.orders)) p s ∧
      (buildAll host d block e (qs.map Part.path ++ [p])).2 = .error s := by
  induction sources generalizing e with
  | nil => exact .inl ⟨[], rfl, fun _ h => (nomatch h), trivial, e.completes_nil, rfl⟩
  | cons p ps ih =>
    rcases buildSource_cases host d block e p with
      ⟨q, rfl, hq, hcompletes, hcapacity, hok⟩ | ⟨s, hends, herror⟩
    · rcases ih (e.after q.orders) with
        ⟨qs, rfl, hqs, haffords, hrest, hall⟩ | ⟨qs, p, more, s, rfl, hqs, hrest, hends, hall⟩
      · refine .inl ⟨q :: qs, rfl, List.forall_mem_cons.2 ⟨hq, hqs⟩, ⟨hcapacity, haffords⟩, ?_, ?_⟩
        · exact completes_append.2 ⟨hcompletes, hrest⟩
        · rw [List.flatMap_cons, after_append, buildAll_of_ok hok]
          exact hall
      · refine .inr ⟨q :: qs, p, more, s, rfl, List.forall_mem_cons.2 ⟨hq, hqs⟩, ?_, ?_, ?_⟩
        · exact completes_append.2 ⟨hcompletes, hrest⟩
        · rw [List.flatMap_cons, after_append]
          exact hends
        · rw [List.map_cons, List.cons_append, buildAll_of_ok hok]
          exact hall
    · refine .inr ⟨[], p, ps, s, rfl, fun _ h => (nomatch h), e.completes_nil, hends, ?_⟩
      exact congrArg Prod.snd (buildAll_of_error herror [])

theorem emitSource_of_completes {host : Host} {e : Emitter} {q : Part} (h : e.Completes q.orders)
    (hcapacity : q.commands.length ≤ host.capacity e.listing q.commands) :
    (emitSource host e q.path q.statements).2 = .ok (e.after q.orders) := by
  rcases emitSource_cases host e q with ⟨-, -, hok⟩ | ⟨hless, -, -⟩ | ⟨before, s, more, f, hsplit, -, hf, -⟩
  · exact hok
  · omega
  · have horders : q.orders =
        Part.orders ⟨q.path, before⟩ ++ .command s.command :: more.map (.command ·.command) := by
      rw [Part.orders, Part.commands, hsplit]
      simp [Part.orders, Part.commands]
    rw [horders, completes_append, completes_cons, hf] at h
    exact nomatch h.2.1

/-- If every source can be read and its commands be emitted, and memory lasts, the build goes through. -/
theorem buildAll_of_completes {host : Host} {d : Disk} {block : Option Int} {qs : List Part}
    (hread : ∀ q ∈ qs, q.ReadFrom host d block) {e : Emitter} (haffords : Affords host e qs)
    (h : e.Completes (qs.flatMap Part.orders)) :
    (buildAll host d block e (qs.map Part.path)).2 = .ok (e.after (qs.flatMap Part.orders)) := by
  induction qs generalizing e with
  | nil => rfl
  | cons q qs ih =>
    rw [List.forall_mem_cons] at hread
    obtain ⟨⟨text, htext, haccepted⟩, hqs⟩ := hread
    rw [List.flatMap_cons, completes_append] at h
    have hsource : (buildSource host d block e q.path).2 = .ok (e.after q.orders) := by
      unfold buildSource
      simp only [htext, haccepted]
      exact emitSource_of_completes h.1 haffords.1
    rw [List.flatMap_cons, after_append, List.map_cons, buildAll_of_ok hsource]
    exact ih hqs haffords.2 h.2

/-- No source behind the one that ends the build is looked at. -/
theorem buildAll_append_of_error {host : Host} {d : Disk} {block : Option Int} {e : Emitter}
    {sources : List Path} {s : Stop} (h : (buildAll host d block e sources).2 = .error s) (more : List Path) :
    buildAll host d block e (sources ++ more) = buildAll host d block e sources := by
  induction sources generalizing e with
  | nil => cases h
  | cons p ps ih =>
    rw [List.cons_append]
    cases hsource : (buildSource host d block e p).2 with
    | error s' => rw [buildAll_of_error hsource, buildAll_of_error hsource]
    | ok e' =>
      rw [buildAll_of_ok hsource] at h
      rw [buildAll_of_ok hsource, buildAll_of_ok hsource, ih h]

/-- Nothing of the disk matters but the content of the sources. -/
theorem buildAll_congr {host : Host} {d d' : Disk} {block : Option Int} {sources : List Path}
    (h : ∀ p ∈ sources, d'.read p = d.read p) (e : Emitter) :
    buildAll host d' block e sources = buildAll host d block e sources := by
  induction sources generalizing e with
  | nil => rfl
  | cons p ps ih =>
    rw [List.forall_mem_cons] at h
    have hsource : buildSource host d' block e p = buildSource host d block e p := by
      unfold buildSource readSource
      rw [h.1]
    rw [buildAll, buildAll, hsource]
    simp only [ih h.2]

/-! ## Listings -/

def opening (o : Options) : List Order := if o.bootstrap then [.bootstrap] else []

def program (o : Options) (qs : List Part) : List Order := opening o ++ qs.flatMap Part.orders

theorem emit_of_no_symbols {e : Emitter} (hlabels : e.labels = []) (hstatics : e.statics = [])
    (note : Option String) (code : List Instruction) : (e.emit note code).2 = none := by
  have hclash : ∀ n ∈ labelNames code, e.clash? n = none := by
    intro n _
    unfold clash?
    rw [hlabels, hstatics, if_neg List.not_mem_nil, if_neg List.not_mem_nil]
  unfold emit
  rw [List.findSome?_eq_none_iff.2 hclash]

theorem completes_opening (o : Options) : ({ options := o } : Emitter).Completes (opening o) := by
  unfold opening
  split
  · refine completes_cons.2 ⟨?_, completes_nil _⟩
    have hfits : ∀ n ∈ ({ options := o } : Emitter).numbersFor .bootstrap .bootstrap, Numeral.Fits n :=
      List.forall_mem_singleton.2 (by decide : Numeral.Fits 0)
    rw [run_of_origin (g := .bootstrap) rfl, prepare, emitCode_of_fits hfits]
    exact emit_of_no_symbols rfl rfl _ _
  · exact completes_nil _

theorem start_eq (o : Options) : start o = (({ options := o } : Emitter).after (opening o), none) := by
  have h := completes_opening o
  unfold start
  unfold opening at h ⊢
  split
  · next hb =>
    rw [if_pos hb, completes_cons] at h
    exact Prod.ext rfl h.1
  · rfl

theorem buildSources_eq (host : Host) (d : Disk) (o : Options) (block : Option Int) (sources : List Path) :
    buildSources host d o block sources =
      ((buildAll host d block (({ options := o } : Emitter).after (opening o)) sources).1,
        (buildAll host d block (({ options := o } : Emitter).after (opening o)) sources).2.map
          Emitter.listing) := by
  unfold buildSources
  rw [start_eq]

/-- A build goes through all sources, or up to the first that ends it. -/
theorem buildSources_ends (host : Host) (d : Disk) (o : Options) (block : Option Int) (sources : List Path) :
    (∃ qs : List Part, qs.map Part.path = sources ∧ (∀ q ∈ qs, q.ReadFrom host d block) ∧
      Affords host (({ options := o } : Emitter).after (opening o)) qs ∧
      ({ options := o } : Emitter).Completes (program o qs) ∧
      (buildSources host d o block sources).2 =
        .ok (({ options := o } : Emitter).after (program o qs)).listing) ∨
    ∃ (qs : List Part) (p : Path) (more : List Path) (s : Stop),
      sources = qs.map Part.path ++ p :: more ∧ (∀ q ∈ qs, q.ReadFrom host d block) ∧
      ({ options := o } : Emitter).Completes (program o qs) ∧
      Ends host d block (({ options := o } : Emitter).after (program o qs)) p s ∧
      (buildSources host d o block (qs.map Part.path ++ [p])).2 = .error s := by
  simp only [buildSources_eq, program, after_append, completes_append]
  have hopening := completes_opening o
  rcases buildAll_cases host d block (({ options := o } : Emitter).after (opening o)) sources with
    ⟨qs, hqs, hread, haffords, hcompletes, hok⟩ | ⟨qs, p, more, s, hsources, hread, hcompletes, hends, herror⟩
  · refine .inl ⟨qs, hqs, hread, haffords, ⟨hopening, hcompletes⟩, ?_⟩
    rw [hok]
    rfl
  · refine .inr ⟨qs, p, more, s, hsources, hread, ⟨hopening, hcompletes⟩, hends, ?_⟩
    rw [herror]
    rfl

theorem buildSources_of_completes {host : Host} {d : Disk} {o : Options} {block : Option Int} {qs : List Part}
    (hread : ∀ q ∈ qs, q.ReadFrom host d block)
    (haffords : Affords host (({ options := o } : Emitter).after (opening o)) qs)
    (h : ({ options := o } : Emitter).Completes (program o qs)) :
    (buildSources host d o block (qs.map Part.path)).2 =
      .ok (({ options := o } : Emitter).after (program o qs)).listing := by
  rw [program, completes_append] at h
  rw [buildSources_eq, program, after_append]
  show Except.map _ _ = _
  rw [buildAll_of_completes hread haffords h.2]
  rfl

theorem buildSources_append_of_error {host : Host} {d : Disk} {o : Options} {block : Option Int}
    {sources : List Path} {s : Stop} (h : (buildSources host d o block sources).2 = .error s) (more : List Path) :
    buildSources host d o block (sources ++ more) = buildSources host d o block sources := by
  rw [buildSources_eq] at h
  rw [buildSources_eq, buildSources_eq]
  cases hall : (buildAll host d block (({ options := o } : Emitter).after (opening o)) sources).2 with
  | error s' => rw [buildAll_append_of_error hall, hall]
  | ok e =>
    rw [hall] at h
    cases h

theorem buildSources_congr {host : Host} {d d' : Disk} {o : Options} {block : Option Int}
    {sources : List Path} (h : ∀ p ∈ sources, d'.read p = d.read p) :
    buildSources host d' o block sources = buildSources host d o block sources := by
  rw [buildSources_eq, buildSources_eq, buildAll_congr h]

def Part.places (q : Part) : List (Origin × String × Option String) :=
  placesFrom (stem q.path.name) none q.commands

def places (o : Options) (qs : List Part) : List (Origin × String × Option String) :=
  (if o.bootstrap then [(.bootstrap, "", none)] else []) ++ qs.flatMap Part.places

/-- The listing consists of the blocks of a program in order, each the code for its place. -/
structure Laid (o : Options) (qs : List Part) (l : Listing) (blocks : List Emitted) : Prop where
  listing : l.toList = linesOf blocks
  place : blocks.map Emitted.place = places o qs
  code : ∀ before b more, blocks = before ++ b :: more →
    b.IsCode o (before.countP (·.origin.compares)) (before.countP (·.origin.calls))

theorem noted_of_mem_program {o : Options} {qs : List Part} {x : Order} (h : x ∈ program o qs) : x.Noted := by
  rw [program, opening, List.mem_append, List.mem_flatMap] at h
  rcases h with h | ⟨q, -, h⟩
  · split at h
    · rw [List.mem_singleton] at h
      subst h
      intro g hg
      cases hg
      rfl
    · cases h
  · rw [Part.orders, List.mem_cons, List.mem_map] at h
    rcases h with rfl | ⟨c, -, rfl⟩
    · intro g hg
      cases hg
    · intro g hg
      cases hg
      rfl

theorem place_trace_parts {qs : List Part} {e : Emitter} (h : e.Completes (qs.flatMap Part.orders)) :
    (e.trace (qs.flatMap Part.orders)).map Emitted.place = qs.flatMap Part.places := by
  induction qs generalizing e with
  | nil => rfl
  | cons q qs ih =>
    rw [List.flatMap_cons, completes_append] at h
    obtain ⟨hq, hqs⟩ := h
    rw [List.flatMap_cons, trace_append, List.map_append, ih hqs, List.flatMap_cons]
    congr 1
    rw [Part.orders, trace_of_no_code rfl, place_trace (completes_cons.1 hq).2]
    rfl

theorem laid_of_completes {o : Options} {qs : List Part}
    (h : ({ options := o } : Emitter).Completes (program o qs)) :
    Laid o qs (({ options := o } : Emitter).after (program o qs)).listing
      (({ options := o } : Emitter).trace (program o qs)) := by
  refine ⟨((Kept.fresh o).after (program o qs)).listing, ?_, ?_⟩
  · obtain ⟨hopening, hqs⟩ := completes_append.1 h
    rw [program, trace_append, List.map_append, place_trace_parts hqs, places]
    congr 1
    unfold opening at hopening ⊢
    split
    · next hb =>
      rw [if_pos hb, completes_cons] at hopening
      obtain ⟨b, -, hplace, htrace⟩ := trace_cons (o := .bootstrap) rfl hopening.1 []
      rw [htrace, List.map_cons, hplace]
      rfl
    · rfl
  · intro before b more hblocks
    have hcode := isCode_trace (fun x hx => noted_of_mem_program hx) h hblocks
    rw [Nat.zero_add, Nat.zero_add] at hcode
    exact hcode

/-! ## Builds -/

/-- The statements are those of the whole text at the path. -/
def Part.WrittenOn (d : Disk) (q : Part) : Prop :=
  ∃ text, HasText d q.path text ∧ Script.read text = .accepted q.statements

/-- How a source with legible text stops a build that has come as far as `e`. -/
inductive Halts (host : Host) (d : Disk) (n : Int) (e : Emitter) (p : Path) : Stop → Prop
  /-- The file cannot be read in blocks of this size. -/
  | unusable {bytes : List UInt8} {r : Text.ReadError} (hread : d.read p = .ok bytes)
    (h : Text.Unusable host.room (some n) bytes r) : Halts host d n e p (.failed (.source r))
  /-- There is no memory for the code of the first command behind those that go through. -/
  | exhausted {text : List Char} {q : Part} (hpath : q.path = p) (htext : HasText d p text)
    (h : Script.read text = .accepted q.statements)
    (hcapacity : host.capacity e.listing q.commands < q.commands.length)
    (hbefore : e.Completes (q.upTo (host.capacity e.listing q.commands)).orders) :
    Halts host d n e p (.failed .noMemory)
  /-- There is a diagnostic for each bad line. -/
  | refused {text : List Char} {complaints : List Complaint} (htext : HasText d p text)
    (h : Script.read text = .refused complaints)
    (htells : Script.Tells ((Text.splitLines text).zipIdx 1) (.refused complaints)) :
    Halts host d n e p (.refused (complaints.map (.badLine p.name)))
  /-- The first bad statement ends the build with its own fault. -/
  | fault {text : List Char} {before : List Statement} {s : Statement} {more : List Statement} {f : Fault}
    (htext : HasText d p text) (h : Script.read text = .accepted (before ++ s :: more))
    (hbefore : e.Completes (Part.orders ⟨p, before⟩))
    (hs : ((e.after (Part.orders ⟨p, before⟩)).run (.command s.command)).2 = some f) :
    Halts host d n e p (.failed (.fault f))

theorem Ends.halts {host : Host} {d : Disk} {n : Int} {e : Emitter} {p : Path} {s : Stop} {text : List Char}
    (h : Ends host d (some n) e p s) (hn : some n ≠ some 0) (htext : HasText d p text)
    (hlegible : Script.Legible text) : Halts host d n e p s := by
  cases h with
  | unread hread =>
    obtain ⟨bytes, -, hbytes, -⟩ := id htext
    rcases readSource_cases htext hbytes hn with hok | ⟨r, hr, herror⟩
    · exact nomatch hread.symm.trans hok
    · cases hread.symm.trans herror
      exact .unusable hbytes hr
  | overlong hread hover =>
    rw [(hasText_of_readSource hread hn).unique htext] at hover
    exact absurd hover (Script.legible_iff.1 hlegible _ _)
  | refused hread hrefused =>
    rw [(hasText_of_readSource hread hn).unique htext] at hrefused
    refine .refused htext hrefused ?_
    rw [← hrefused]
    exact Script.tells_read hlegible
  | exhausted hpath hread haccepted hcapacity hbefore =>
    exact .exhausted hpath (hasText_of_readSource hread hn) haccepted hcapacity hbefore
  | fault hread haccepted hbefore hs =>
    exact .fault (hasText_of_readSource hread hn) haccepted hbefore hs

theorem Part.ReadFrom.writtenOn {host : Host} {d : Disk} {block : Option Int} {q : Part}
    (h : q.ReadFrom host d block) (hblock : block ≠ some 0) : q.WrittenOn d := by
  obtain ⟨text, hread, haccepted⟩ := h
  exact ⟨text, hasText_of_readSource hread hblock, haccepted⟩

/-- Every build of sources with legible text, in blocks of any size but zero. Either the listing consists
of the bootstrap, if it is asked for, and the blocks of all commands of all sources in order, each under
the name of its file and from outside of any function on. Or there is a first source that stops the build:
all sources before it go through, the outcome is what is wrong with it, and nothing behind it on the disk
or in the list of sources makes a difference. -/
theorem buildSources_cases (host : Host) (d : Disk) (o : Options) (n : Int) (sources : List Path) (hn : n ≠ 0)
    (h : ∀ p ∈ sources, ∃ text, HasText d p text ∧ Script.Legible text) :
    (∃ (qs : List Part) (listing : Listing) (blocks : List Emitted), qs.map Part.path = sources ∧
      (∀ q ∈ qs, q.WrittenOn d) ∧ (buildSources host d o (some n) sources).2 = .ok listing ∧
      Laid o qs listing blocks) ∨
    ∃ (qs : List Part) (p : Path) (more : List Path) (s : Stop),
      sources = qs.map Part.path ++ p :: more ∧ (∀ q ∈ qs, q.WrittenOn d) ∧
      ({ options := o } : Emitter).Completes (program o qs) ∧
      Halts host d n (({ options := o } : Emitter).after (program o qs)) p s ∧
      (buildSources host d o (some n) sources).2 = .error s ∧
      ∀ d' more', (∀ p' ∈ qs.map Part.path ++ [p], d'.read p' = d.read p') →
        buildSources host d' o (some n) (qs.map Part.path ++ p :: more') =
          buildSources host d o (some n) sources := by
  have hblock : some n ≠ some 0 := fun hzero => hn (Option.some.inj hzero)
  rcases buildSources_ends host d o (some n) sources with
    ⟨qs, hqs, hread, -, hall, hok⟩ | ⟨qs, p, more, s, rfl, hread, hall, hends, herror⟩
  · exact .inl ⟨qs, _, _, hqs, fun q hq => (hread q hq).writtenOn hblock, hok, laid_of_completes hall⟩
  · obtain ⟨text, htext, hlegible⟩ := h p (List.mem_append_right _ List.mem_cons_self)
    have hstop : ∀ rest, buildSources host d o (some n) (qs.map Part.path ++ p :: rest) =
        buildSources host d o (some n) (qs.map Part.path ++ [p]) := by
      intro rest
      rw [List.append_cons, buildSources_append_of_error herror]
    refine .inr ⟨qs, p, more, s, rfl, fun q hq => (hread q hq).writtenOn hblock, hall,
      hends.halts hblock htext hlegible, ?_, ?_⟩
    · rw [hstop, herror]
    · intro d' more' hsame
      rw [← buildSources_congr hsame] at herror
      rw [hstop, List.append_cons, buildSources_append_of_error herror, buildSources_congr hsame]

/-- A source behind a bad one is not even looked for. -/
theorem buildSources_cases_missingNext :
    let d : Disk := { entries := [(.ofNames ["A.vm"], .file [97, 100, 100, 10, 109, 117, 108])] }
    buildSources .ample d {} (some 4) [⟨0, ["A.vm"]⟩, ⟨0, ["B.vm"]⟩] =
      buildSources .ample d {} (some 4) [⟨0, ["A.vm"]⟩] := by
  intro d
  have htext : HasText d ⟨0, ["A.vm"]⟩ "add\nmul".toList := ⟨_, _, rfl, rfl, rfl⟩
  obtain ⟨complaints, hrefused⟩ : ∃ cs, Script.read "add\nmul".toList = .refused cs := ⟨_, rfl⟩
  have hlegible : Script.Legible "add\nmul".toList :=
    Script.legible_iff.2 fun p o hover => nomatch hrefused.symm.trans hover
  rcases buildSources_cases .ample d {} 4 [⟨0, ["A.vm"]⟩] (by decide)
      (List.forall_mem_singleton.2 ⟨_, htext, hlegible⟩) with
    ⟨qs, _, _, hqs, hwritten, -⟩ | ⟨qs, p, more, s, hqs, -, -, -, -, hsame⟩
  · obtain ⟨q, rfl, hpath⟩ := List.map_eq_singleton_iff.1 hqs
    obtain ⟨text, htext', haccepted⟩ := hwritten q (List.mem_singleton_self q)
    rw [hpath] at htext'
    rw [← htext.unique htext'] at haccepted
    exact nomatch hrefused.symm.trans haccepted
  · rcases List.append_eq_singleton_iff.1 hqs.symm with ⟨hnil, hp⟩ | ⟨-, hnil⟩
    · obtain ⟨rfl, -⟩ := List.cons.inj hp
      rw [hnil] at hsame
      exact hsame d [⟨0, ["B.vm"]⟩] fun _ _ => rfl
    · exact absurd hnil (List.cons_ne_nil _ _)

/-- A text that is fine, but no block of the size that is asked for can be read. -/
theorem buildSources_sizeOutOfRange :
    let d : Disk := { entries := [(.ofNames ["A.vm"], .file [97, 100, 100, 10])] }
    let o : Options := { bootstrap := false }
    let q : Part := ⟨⟨0, ["A.vm"]⟩, [⟨1, .operate (.binary .add)⟩]⟩
    q.WrittenOn d ∧ ({ options := o } : Emitter).Completes (program o [q]) ∧
      (buildSources .ample d o (some 9223372036854775808) [q.path]).2 =
        .error (.failed (.source .sizeOutOfRange)) := by
  intro d o q
  have hread : readSource Host.ample.openText d (some 9223372036854775808) q.path =
      .error (.source .sizeOutOfRange) := by
    rw [readSource_of_read rfl, Text.Opened.readAll, Text.Opened.readFrom_of_error rfl]
    rfl
  refine ⟨⟨_, ⟨_, _, rfl, rfl, rfl⟩, rfl⟩, ?_, ?_⟩
  · exact completes_cons.2 ⟨rfl, completes_cons.2 ⟨rfl, completes_nil _⟩⟩
  · rw [buildSources_eq, buildAll_of_error (buildSource_of_error hread _)]
    rfl

end HackVm.Build
