import HackVm.Proofs.Outputs

/-!
# Files that share static variables

A static symbol tells the stem of its file and the number of the variable. The files of a directory have
different names, and so have their stems, but for one pair: a name that is nothing but the suffix of
sources is a stem as a whole, and with the suffix added to it once more it is the stem again.

* `Build.stem_source` : the stem of a source;
* `Build.Twins`, `Build.stem_eq_iff` : the one pair of names with the same stem;
* `Build.UsesStatic` : the symbol that an access of a source to a static variable loads;
* `Build.UsesStatic.eq`, `Build.exists_usesStatic` : which symbol that is, and that there is one;
* `Build.static_shared_iff` : when two accesses in the files of a directory share a variable.
-/

namespace HackVm
open Instruction

namespace Build

/-! ## Stems -/

theorem isSourceName_iff {name : String} : isSourceName name = true ↔ ∃ base, name = base ++ sourceSuffix := by
  rw [isSourceName, beq_iff_eq]
  constructor
  · intro h
    refine ⟨String.ofList (name.toList.reverse.drop 3).reverse, String.toList_inj.1 ?_⟩
    have hsplit := congrArg List.reverse (List.take_append_drop 3 name.toList.reverse)
    rw [h, List.reverse_append, List.reverse_reverse] at hsplit
    rw [String.toList_append, String.toList_ofList]
    exact hsplit.symm
  · rintro ⟨base, rfl⟩
    rw [String.toList_append, List.reverse_append]
    rfl

/-- A source without a name before its suffix is a stem as a whole. -/
theorem stem_source (base : String) :
    stem (base ++ sourceSuffix) = if base = "" then sourceSuffix else base := by
  have hchars : (base ++ sourceSuffix).toList.reverse = 'm' :: 'v' :: '.' :: base.toList.reverse := by
    rw [String.toList_append, List.reverse_append]
    rfl
  unfold stem splitSuffix
  rw [hchars]
  by_cases hbase : base = ""
  · subst hbase
    rfl
  · have hne : base.toList.reverse.isEmpty = false := by
      simpa using hbase
    simp [hne, hbase]

/-- The two names of sources that have the same stem. -/
def Twins (a b : String) : Prop :=
  (a = sourceSuffix ∧ b = sourceSuffix ++ sourceSuffix) ∨ (a = sourceSuffix ++ sourceSuffix ∧ b = sourceSuffix)

instance (a b : String) : Decidable (Twins a b) := inferInstanceAs (Decidable (_ ∨ _))

theorem twins_source {base base' : String} : Twins (base ++ sourceSuffix) (base' ++ sourceSuffix) ↔
    (base = "" ∧ base' = sourceSuffix) ∨ (base = sourceSuffix ∧ base' = "") := by
  have hbare : ∀ s : String, s ++ sourceSuffix = sourceSuffix ↔ s = "" := by
    intro s
    nth_rewrite 2 [← String.empty_append (s := sourceSuffix)]
    exact String.append_left_inj _
  rw [Twins, hbare, hbare, String.append_left_inj, String.append_left_inj]

/-- Names of sources have the same stem only if they are equal, or the two that are stems with and
without a suffix. -/
theorem stem_eq_iff {a b : String} (ha : isSourceName a = true) (hb : isSourceName b = true) :
    stem a = stem b ↔ a = b ∨ Twins a b := by
  obtain ⟨base, rfl⟩ := isSourceName_iff.1 ha
  obtain ⟨base', rfl⟩ := isSourceName_iff.1 hb
  rw [stem_source, stem_source, twins_source, String.append_left_inj]
  have hsuffix : sourceSuffix ≠ "" := by decide
  -- Only where exactly one of the two names is a bare suffix can the stems agree although the names do not.
  by_cases hbase : base = "" <;> by_cases hbase' : base' = ""
  · simp [hbase, hbase']
  · simp [hbase, hbase', hsuffix.symm, eq_comm]
  · simp [hbase, hbase', hsuffix.symm]
  · simp [hbase, hbase']

end Build

/-! ## Static symbols of sources -/

def Command.AccessesStatic (i : Int) (c : Command) : Prop := c = .push .static i ∨ c = .pop .static i

namespace Emitter

theorem symbol_mem_of_access {e : Emitter} {c : Command} {i : Int} (hc : c.AccessesStatic i)
    {code : List Instruction} (h : (e.prepare (.command c)).2 = .ok code) (n : String) :
    symbol n ∈ code ↔ n = Naming.static e.file i ∨ n = "SP" := by
  rcases hc with rfl | rfl
  · have hcode : Block.push .static i e.file = .ok code := withSegment_eq_ok h
    rw [(Block.push_static_eq_ok.1 hcode).2]
    simp [Block.pushD, symbol, assign]
  · have hcode : Block.pop .static i e.file = .ok code := withSegment_eq_ok h
    rw [(Block.pop_static_eq_ok.1 hcode).2]
    simp [Block.popD, symbol, assign, or_comm]

/-- Every block of a run is emitted by one of its orders. -/
theorem emitted?_of_mem_trace {e : Emitter} {orders : List Order} {b : Emitted} (h : b ∈ e.trace orders) :
    ∃ before o more, orders = before ++ o :: more ∧ (e.after before).emitted? o = some b := by
  induction orders generalizing e with
  | nil => cases h
  | cons o orders ih =>
    rw [trace, List.mem_append, Option.mem_toList] at h
    rcases h with h | h
    · exact ⟨[], o, orders, rfl, h⟩
    · obtain ⟨before, o', more, rfl, hb⟩ := ih h
      exact ⟨o :: before, o', more, rfl, hb⟩

theorem file_after_commands (e : Emitter) (cs : List Command) : (e.after (cs.map .command)).file = e.file := by
  refine after_invariant (P := fun e' => e'.file = e.file) rfl fun e' o ho he' => ?_
  obtain ⟨c, -, rfl⟩ := List.mem_map.1 ho
  have hmoved : Moved e' (.command c) (e'.run (.command c)).1 := run_moved rfl
  rw [hmoved.file, he']

end Emitter

namespace Build
open Emitter

/-- The blocks of a source are the code of its commands in its file. -/
theorem prepare_of_mem_trace {e : Emitter} {q : Part} {b : Emitted} (h : b ∈ e.trace q.orders) :
    ∃ e' : Emitter, e'.file = stem q.path.name ∧ (e'.prepare b.origin).2 = .ok b.code := by
  rw [Part.orders, trace_of_no_code rfl] at h
  obtain ⟨before, o, more, hsplit, hb⟩ := emitted?_of_mem_trace h
  obtain ⟨g, code, -, hcode, rfl⟩ := emitted?_eq_some hb
  obtain ⟨cs, cs', -, rfl, -⟩ := List.map_eq_append_iff.1 hsplit
  exact ⟨_, file_after_commands _ cs, hcode⟩

theorem origins_trace {e : Emitter} {q : Part} (h : e.Completes q.orders) :
    (e.trace q.orders).map Emitted.origin = q.commands.map .command := by
  have hplaces := congrArg (List.map Prod.fst) (place_trace (completes_cons.1 h).2)
  rw [List.map_map, origins_placesFrom] at hplaces
  rw [Part.orders, trace_of_no_code rfl]
  exact hplaces

/-- In a program of the sources `qs`, an access of `q` to static variable `i` loads the symbol `n`. Apart
from it such an access loads the stack pointer only. -/
def UsesStatic (o : Options) (qs : List Part) (q : Part) (i : Int) (n : String) : Prop :=
  ∃ before more, qs = before ++ q :: more ∧
    ∃ b ∈ (({ options := o } : Emitter).after (program o before)).trace q.orders,
      ∃ c : Command, b.origin = .command c ∧ c.AccessesStatic i ∧ symbol n ∈ b.code ∧ n ≠ "SP"

theorem UsesStatic.eq {o : Options} {qs : List Part} {q : Part} {i : Int} {n : String}
    (h : UsesStatic o qs q i n) : n = Naming.static (stem q.path.name) i := by
  obtain ⟨before, more, -, b, hb, c, horigin, hc, hn, hsp⟩ := h
  obtain ⟨e, hfile, hcode⟩ := prepare_of_mem_trace hb
  rw [horigin] at hcode
  rw [← hfile]
  exact ((symbol_mem_of_access hc hcode n).1 hn).resolve_right hsp

theorem program_append (o : Options) (qs : List Part) (q : Part) (more : List Part) :
    program o (qs ++ q :: more) = program o qs ++ (q.orders ++ more.flatMap Part.orders) := by
  rw [program, program, List.flatMap_append, List.flatMap_cons, List.append_assoc]

/-- Each access to a static variable loads its symbol. -/
theorem exists_usesStatic {o : Options} {qs : List Part} {q : Part} {i : Int}
    (h : ({ options := o } : Emitter).Completes (program o qs)) (hq : q ∈ qs) {c : Command}
    (hc : c ∈ q.commands) (hi : c.AccessesStatic i) : ∃ n, UsesStatic o qs q i n := by
  obtain ⟨before, more, rfl⟩ := List.append_of_mem hq
  rw [program_append, completes_append, completes_append] at h
  have horigin : Origin.command c ∈ ((({ options := o } : Emitter).after (program o before)).trace
      q.orders).map Emitted.origin := by
    rw [origins_trace h.2.1]
    exact List.mem_map_of_mem hc
  obtain ⟨b, hb, hbc⟩ := List.mem_map.1 horigin
  obtain ⟨e, -, hcode⟩ := prepare_of_mem_trace hb
  rw [hbc] at hcode
  have hsp : Naming.static e.file i ≠ "SP" := by
    intro heq
    have hdot : '.' ∈ (Naming.static e.file i).toList := by simp [Naming.static]
    rw [heq] at hdot
    exact absurd hdot (by decide)
  exact ⟨_, before, more, rfl, b, hb, c, hbc, hi, (symbol_mem_of_access hi hcode _).2 (.inl rfl), hsp⟩

theorem name_of_mem_sources {d : Disk} {input : Path} {sources : List Path}
    (hdirectory : d.isDirectory input = .ok true) (h : collectSources d input = .ok sources) {f : Path}
    (hf : f ∈ sources) : isSourceName f.name = true ∧ f = input.child f.name := by
  obtain ⟨-, name, hname, rfl⟩ := mem_sourcesIn (sourcesIn_of_collectSources hdirectory h) f hf
  have hlast : (input.child name).name = name := by
    simp [Path.name, Path.child]
  rw [hlast]
  exact ⟨hname, rfl⟩

/-- Two sources of a directory have the same stem only if they are one file or twins. In a listing of all
of them each access to a static variable loads a symbol for it. Two accesses load the same symbol if they
are to the same number and in one file, or in twins. -/
theorem static_shared_iff {d : Disk} {input : Path} {sources : List Path}
    (hdirectory : d.isDirectory input = .ok true) (h : collectSources d input = .ok sources) :
    (∀ f ∈ sources, ∀ g ∈ sources, (stem f.name = stem g.name ↔ f = g ∨ Twins f.name g.name)) ∧
    ∀ host o block l, (buildSources host d o block sources).2 = .ok l →
      ∃ qs : List Part, qs.map Part.path = sources ∧ (∀ q ∈ qs, q.ReadFrom host d block) ∧
        l = (({ options := o } : Emitter).after (program o qs)).listing ∧
        (∀ q ∈ qs, ∀ c ∈ q.commands, ∀ i, c.AccessesStatic i → ∃ n, UsesStatic o qs q i n) ∧
        ∀ q ∈ qs, ∀ q' ∈ qs, ∀ i j n m, UsesStatic o qs q i n → UsesStatic o qs q' j m →
          (n = m ↔ (q.path = q'.path ∨ Twins q.path.name q'.path.name) ∧ i = j) := by
  have hstem : ∀ f ∈ sources, ∀ g ∈ sources, (stem f.name = stem g.name ↔ f = g ∨ Twins f.name g.name) := by
    intro f hf g hg
    obtain ⟨hfname, hfpath⟩ := name_of_mem_sources hdirectory h hf
    obtain ⟨hgname, hgpath⟩ := name_of_mem_sources hdirectory h hg
    have hpath : f = g ↔ f.name = g.name := by
      refine ⟨congrArg Path.name, fun hname => ?_⟩
      rw [hfpath, hgpath, hname]
    rw [stem_eq_iff hfname hgname, hpath]
  refine ⟨hstem, fun host o block l hl => ?_⟩
  rcases buildSources_ends host d o block sources with
    ⟨qs, hqs, hread, -, hcompletes, hok⟩ | ⟨qs, p, more, s, hsources, -, -, -, herror⟩
  · rw [hl] at hok
    refine ⟨qs, hqs, hread, Except.ok.inj hok,
      fun q hq c hc i hi => exists_usesStatic hcompletes hq hc hi, ?_⟩
    intro q hq q' hq' i j n m hn hm
    rw [hn.eq, hm.eq, Naming.static_eq_iff, hstem q.path (hqs ▸ List.mem_map_of_mem hq) q'.path
      (hqs ▸ List.mem_map_of_mem hq')]
  · rw [hsources, List.append_cons, buildSources_append_of_error herror, herror] at hl
    cases hl

/-! ## Two files -/

def writer (name : String) : Part := ⟨⟨0, ["P", name]⟩, [⟨1, .pop .static 0⟩]⟩

def reader (name : String) : Part := ⟨⟨0, ["P", name]⟩, [⟨1, .push .static 0⟩]⟩

def pair (a b : String) : Disk :=
  { entries := [(.ofNames ["P"], .directory),
      (.ofNames ["P", a], .file (Utf8.plainBytes "pop static 0\n".toList)),
      (.ofNames ["P", b], .file (Utf8.plainBytes "push static 0\n".toList))] }

theorem isDirectory_pair (a b : String) : (pair a b).isDirectory ⟨0, ["P"]⟩ = .ok true := rfl

theorem collectSources_pair {a b : String} (ha : isSourceName a = true) (hb : isSourceName b = true)
    (hle : nameLE a.toList b.toList = true) (hfa : (pair a b).isFile (writer a).path = .ok true)
    (hfb : (pair a b).isFile (reader b).path = .ok true) :
    collectSources (pair a b) ⟨0, ["P"]⟩ = .ok [(writer a).path, (reader b).path] := by
  have hnames : ((pair a b).names (.ofNames ["P"])).filter isSourceName = [a, b] := by
    show [a, b].filter isSourceName = [a, b]
    simp [ha, hb]
  have hsorted : [a, b].mergeSort (fun a b => nameLE a.toList b.toList) = [a, b] :=
    List.mergeSort_of_pairwise (by simpa using hle)
  have hfiles : [(writer a).path, (reader b).path].filterM (pair a b).isFile =
      .ok [(writer a).path, (reader b).path] := by
    rw [List.filterM, List.filterAuxM, hfa]
    show (List.filterAuxM (pair a b).isFile [(reader b).path] [(writer a).path] >>= _) = _
    rw [List.filterAuxM, hfb]
    rfl
  have hin : sourcesIn (pair a b) ⟨0, ["P"]⟩ = .ok [(writer a).path, (reader b).path] := by
    have hlocate : (pair a b).locate ⟨0, ["P"]⟩ = .ok (.ofNames ["P"]) := rfl
    rw [sourcesIn, hlocate]
    dsimp only
    rw [hnames, hsorted]
    exact hfiles
  rw [collectSources, isDirectory_pair]
  dsimp only
  rw [hin]
  rfl

theorem readFrom_writer {a b : String}
    (h : (pair a b).read (writer a).path = .ok (Utf8.plainBytes "pop static 0\n".toList)) :
    (writer a).ReadFrom .ample (pair a b) (some defaultBlock) := by
  refine ⟨_, readSource_plainBytes h (by decide) rfl, ?_⟩
  show Script.read "pop static 0\n".toList = .accepted [⟨1, .pop .static 0⟩]
  decide

theorem readFrom_reader {a b : String}
    (h : (pair a b).read (reader b).path = .ok (Utf8.plainBytes "push static 0\n".toList)) :
    (reader b).ReadFrom .ample (pair a b) (some defaultBlock) := by
  refine ⟨_, readSource_plainBytes h (by decide) rfl, ?_⟩
  show Script.read "push static 0\n".toList = .accepted [⟨1, .push .static 0⟩]
  decide

theorem completes_pair (a b : String) :
    ({ options := { bootstrap := false } } : Emitter).Completes
      (program { bootstrap := false } [writer a, reader b]) :=
  completes_cons.2 ⟨rfl, completes_cons.2 ⟨rfl, completes_cons.2 ⟨rfl, completes_cons.2
    ⟨rfl, completes_nil _⟩⟩⟩⟩

/-- The writer and the reader both load a symbol for their variable. -/
theorem exists_usesStatic_pair (a b : String) :
    ∃ n m, UsesStatic { bootstrap := false } [writer a, reader b] (writer a) 0 n ∧
      UsesStatic { bootstrap := false } [writer a, reader b] (reader b) 0 m := by
  obtain ⟨n, hn⟩ := exists_usesStatic (completes_pair a b) List.mem_cons_self
    (List.mem_singleton_self (Command.pop .static 0)) (.inr rfl)
  obtain ⟨m, hm⟩ := exists_usesStatic (completes_pair a b)
    (List.mem_cons_of_mem _ (List.mem_singleton_self _)) (List.mem_singleton_self (Command.push .static 0))
    (.inl rfl)
  exact ⟨n, m, hn, hm⟩

/-- Files with dots in their stems have variables of their own. -/
theorem static_shared_iff_dotted :
    collectSources (pair "..vm" ".vm.vm") ⟨0, ["P"]⟩ = .ok [(writer "..vm").path, (reader ".vm.vm").path] ∧
    stem "..vm" ≠ stem ".vm.vm" ∧
    ∃ qs l, (buildSources .ample (pair "..vm" ".vm.vm") { bootstrap := false } (some defaultBlock)
        [(writer "..vm").path, (reader ".vm.vm").path]).2 = .ok l ∧
      qs.map Part.path = [(writer "..vm").path, (reader ".vm.vm").path] ∧
      ∀ q ∈ qs, ∀ q' ∈ qs, q.path ≠ q'.path → ∀ i j n m, UsesStatic { bootstrap := false } qs q i n →
        UsesStatic { bootstrap := false } qs q' j m → n ≠ m := by
  have hsources := collectSources_pair (a := "..vm") (b := ".vm.vm") (by decide) (by decide) (by decide)
    (by rfl) (by rfl)
  have hread : ∀ q ∈ [writer "..vm", reader ".vm.vm"],
      q.ReadFrom .ample (pair "..vm" ".vm.vm") (some defaultBlock) :=
    List.forall_mem_cons.2 ⟨readFrom_writer rfl, List.forall_mem_singleton.2 (readFrom_reader rfl)⟩
  have hl := buildSources_of_completes hread (affords_ample _ _) (completes_pair "..vm" ".vm.vm")
  have hnotTwins : ∀ f ∈ [(writer "..vm").path, (reader ".vm.vm").path],
      ∀ g ∈ [(writer "..vm").path, (reader ".vm.vm").path], ¬ Twins f.name g.name := by
    decide
  obtain ⟨hstem, hbuilt⟩ := static_shared_iff (isDirectory_pair "..vm" ".vm.vm") hsources
  obtain ⟨qs, hqs, -, -, -, hshared⟩ := hbuilt .ample { bootstrap := false } (some defaultBlock) _ hl
  refine ⟨hsources, fun heq => ?_, qs, _, hl, hqs, fun q hq q' hq' hne i j n m hn hm heq => ?_⟩
  · have hsame := (hstem _ List.mem_cons_self _ (List.mem_cons_of_mem _ (List.mem_singleton_self _))).1 heq
    exact absurd hsame (by decide)
  · rcases ((hshared q hq q' hq' i j n m hn hm).1 heq).1 with hpath | htwins
    · exact hne hpath
    · exact hnotTwins _ (hqs ▸ List.mem_map_of_mem hq) _ (hqs ▸ List.mem_map_of_mem hq') htwins

/-- Twins are two sources of a directory, and the variable that one of them writes is the one that the
other reads. -/
theorem static_shared_twins :
    collectSources (pair ".vm" ".vm.vm") ⟨0, ["P"]⟩ = .ok [(writer ".vm").path, (reader ".vm.vm").path] ∧
    (writer ".vm").path ≠ (reader ".vm.vm").path ∧ stem ".vm" = stem ".vm.vm" ∧
    ∃ l n, (buildSources .ample (pair ".vm" ".vm.vm") { bootstrap := false } (some defaultBlock)
        [(writer ".vm").path, (reader ".vm.vm").path]).2 = .ok l ∧
      UsesStatic { bootstrap := false } [writer ".vm", reader ".vm.vm"] (writer ".vm") 0 n ∧
      UsesStatic { bootstrap := false } [writer ".vm", reader ".vm.vm"] (reader ".vm.vm") 0 n := by
  have hsources := collectSources_pair (a := ".vm") (b := ".vm.vm") (by decide) (by decide) (by decide)
    (by rfl) (by rfl)
  have hread : ∀ q ∈ [writer ".vm", reader ".vm.vm"],
      q.ReadFrom .ample (pair ".vm" ".vm.vm") (some defaultBlock) :=
    List.forall_mem_cons.2 ⟨readFrom_writer rfl, List.forall_mem_singleton.2 (readFrom_reader rfl)⟩
  have hl := buildSources_of_completes hread (affords_ample _ _) (completes_pair ".vm" ".vm.vm")
  have hstem : stem ".vm" = stem ".vm.vm" := by decide
  obtain ⟨n, m, hn, hm⟩ := exists_usesStatic_pair ".vm" ".vm.vm"
  obtain rfl : n = m := by
    rw [hn.eq, hm.eq]
    exact congrArg (Naming.static · 0) hstem
  exact ⟨hsources, by decide, hstem, _, n, hl, hn, hm⟩

end Build

end HackVm
