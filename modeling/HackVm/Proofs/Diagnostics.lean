import HackVm.Proofs.Sessions

/-!
# What runs tell about bad sources

Every run on an input that can be read, with an output that can be written, ends with a status, and with
a message if the sources are bad. The program has no message for a number in a source that is too long to be
read, for blocks of a size that a source cannot be read in, for a lack of memory, and for a name of the
listing that cannot be shown.

* `IsMessage` : the messages about bad sources;
* `Accessible` : the input can be read and the output be written;
* `Fine` : all sources are read and emitted;
* `Verdict` : how a run judges its sources;
* `run_verdict` : every run does.
-/

namespace HackVm

theorem Script.complaints_ne_nil {text : List Char} {complaints : List Complaint}
    (h : read text = .refused complaints) : complaints ≠ [] := by
  have hlegible : Legible text := legible_iff.2 fun p o hover => nomatch h.symm.trans hover
  have htells := tells_read hlegible
  rw [h] at htells
  exact htells.refused.1 rfl

namespace CommandLine
open Build

/-! ## Messages -/

/-- What messages about bad sources start with. -/
def messageKinds : List String := ["[parse error] ", "[translate error] ", "[io error] "]

def IsMessage (t : String) : Prop := ∃ kind ∈ messageKinds, kind.toList <+: t.toList

theorem isMessage_kind {kind : String} (h : kind ∈ messageKinds) : IsMessage kind :=
  ⟨kind, h, List.prefix_refl _⟩

theorem IsMessage.append {t : String} (h : IsMessage t) (more : String) : IsMessage (t ++ more) := by
  obtain ⟨kind, hkind, hprefix⟩ := h
  refine ⟨kind, hkind, ?_⟩
  rw [String.toList_append]
  exact hprefix.trans (List.prefix_append _ _)

theorem isMessage_diagnostic (x : Diagnostic) : IsMessage x.message := by
  cases x with
  | badLine name complaint =>
    unfold Diagnostic.message
    repeat apply IsMessage.append
    exact isMessage_kind (by decide)
  | noSources p =>
    have hhead : IsMessage "[io error] no .vm files in " := ⟨"[io error] ", by decide, by decide⟩
    exact hhead.append _

theorem isMessage_join {ds : List Diagnostic} (h : ds ≠ []) :
    IsMessage (String.join (ds.map fun x => x.message ++ "\n")) := by
  cases ds with
  | nil => exact absurd rfl h
  | cons x xs =>
    rw [List.map_cons, String.join_cons]
    exact ((isMessage_diagnostic x).append _).append _

theorem isMessage_failureText {f : Failure} {t : String} (h : failureText? f = some t) : IsMessage t := by
  unfold failureText? at h
  split at h <;> cases h <;> exact ((isMessage_kind (by decide)).append _).append _

/-! ## Verdicts -/

/-- The input exists, its sources can be told, and there can be a file for the listing. -/
structure Accessible (host : Host) (d : Disk) (r : Request) (input : Path) : Prop where
  entry : ∃ e, d.entry? input = .ok (some e)
  listed : ∀ e, collectSources d input ≠ .error (.disk e)
  output : ∃ output, r.outputFor d input = .ok output ∧ host.Takes d output

/-- All sources are fine. Blocks of no characters show nothing of their texts. -/
structure Fine (d : Disk) (r : Request) (input : Path) (qs : List Part) : Prop where
  sources : collectSources d input = .ok (qs.map Part.path)
  written : r.block ≠ some 0 → ∀ q ∈ qs, q.WrittenOn d
  completes : ({ options := r.options } : Emitter).Completes (program r.options qs)

def reached (r : Request) (qs : List Part) : Emitter :=
  ({ options := r.options } : Emitter).after (program r.options qs)

/-- How a run judges its sources. -/
inductive Verdict (host : Host) (d : Disk) (r : Request) (input : Path) (s : Session) : Prop
  | done (qs : List Part) (hending : s.ending = .exit 0) (hfine : Fine d r input qs)
  /-- There is a message about what is wrong, behind the log of what went well. -/
  | told (events : List Event) (text : String) (hending : s.ending = .exit 2)
    (herr : s.err = logText r.verbose events ++ text) (htext : IsMessage text)
  /-- No message: a number is too long to be read. -/
  | overlong {sources : List Path} {p : Path} {text : List Char} {phrase : Phrase} {o : Numeral.Overlong}
    (hending : s.ending = .escaped (.unreadable phrase o))
    (hsources : collectSources d input = .ok sources) (hp : p ∈ sources)
    (htext : readSource host.openText d r.block p = .ok text) (hread : Script.read text = .overlong phrase o)
  /-- No message: the size of the blocks is of no use. -/
  | unusable {sources : List Path} {p : Path} {bytes : List UInt8} {e : Text.ReadError}
    (hending : s.ending = .escaped (.source e)) (hsources : collectSources d input = .ok sources)
    (hp : p ∈ sources) (hread : d.read p = .ok bytes) (he : Text.Unusable host.room r.block bytes e)
  /-- No message: there is no memory for the code of a source. -/
  | exhausted {qs : List Part} {q : Part} {more : List Path} (hending : s.ending = .escaped .noMemory)
    (hsources : collectSources d input = .ok (qs.map Part.path ++ q.path :: more))
    (hmemory : host.capacity (reached r qs).listing q.commands < q.commands.length)
  /-- No message: there is no memory for the text of the listing. -/
  | unheld (qs : List Part) (hending : s.ending = .escaped .noMemory) (hfine : Fine d r input qs)
    (hmemory : host.holdsText (reached r qs).listing = false)
  /-- No message: the listing is written, but its name cannot be shown. -/
  | unprintable (qs : List Part) {output : Path} {why : String}
    (hending : s.ending = .escaped (.unprintable why)) (hfine : Fine d r input qs)
    (houtput : r.outputFor d input = .ok output)
    (hwhy : host.unprintable? (writtenLine s.disk output) = some why)

theorem notASource_of_collectSources {d : Disk} {input : Path} {f : Failure}
    (h : collectSources d input = .error f) (hlisted : ∀ e, f ≠ .disk e) : f = .notASource input := by
  unfold collectSources at h
  split at h
  · cases h
    exact absurd rfl (hlisted _)
  · cases hin : sourcesIn d input with
    | error e =>
      rw [hin] at h
      cases h
      exact absurd rfl (hlisted _)
    | ok sources =>
      rw [hin] at h
      cases h
  · split at h
    · cases h
    · cases h
      rfl

section Verdicts
variable {host : Host} {d : Disk} {r : Request} {input output : Path}

theorem Verdict.of_refused {ds : List Diagnostic} (hne : ds ≠ [])
    (h : (buildPath host d r.options r.block input (some output)).result = .error (.refused ds)) :
    Verdict host d r input (build host d r input output) := by
  obtain ⟨hending, events, herr⟩ := build_of_refused h
  exact .told events _ hending herr (isMessage_join hne)

theorem Verdict.of_message {f : Failure} {t : String} (ht : failureText? f = some t)
    (h : (buildPath host d r.options r.block input (some output)).result = .error (.failed f)) :
    Verdict host d r input (build host d r input output) := by
  obtain ⟨hending, events, herr⟩ := build_of_message h ht
  exact .told events t hending herr (isMessage_failureText ht)

theorem exists_failureText (f : Fault) : ∃ t, failureText? (.fault f) = some t := by
  cases f <;> exact ⟨_, rfl⟩

/-- A source that ends the build gets a message, but for what there is none for. -/
theorem Verdict.of_ends {qs : List Part} {p : Path} {more : List Path} {s : Stop} {bytes : List UInt8}
    (hends : Ends host d r.block (reached r qs) p s)
    (hsources : collectSources d input = .ok (qs.map Part.path ++ p :: more)) (hread : d.read p = .ok bytes)
    (h : (buildPath host d r.options r.block input (some output)).result = .error s) :
    Verdict host d r input (build host d r input output) := by
  have hp : p ∈ qs.map Part.path ++ p :: more := List.mem_append_right _ List.mem_cons_self
  cases hends with
  | unread hsource =>
    rcases readSource_error hread hsource with ⟨u, rfl⟩ | ⟨e, he, rfl⟩
    · exact .of_message rfl h
    · cases e with
      | undecodable u => exact he.elim
      | noSize => exact .unusable (build_of_no_message h rfl) hsources hp hread he
      | sizeOutOfRange => exact .unusable (build_of_no_message h rfl) hsources hp hread he
      | noMemory => exact .unusable (build_of_no_message h rfl) hsources hp hread he
  | overlong htext hover => exact .overlong (build_of_no_message h rfl) hsources hp htext hover
  | refused htext hrefused =>
    refine .of_refused (fun hnil => ?_) h
    exact Script.complaints_ne_nil hrefused (List.map_eq_nil_iff.1 hnil)
  | exhausted hpath htext haccepted hcapacity hbefore =>
    rw [← hpath] at hsources
    exact .exhausted (build_of_no_message h rfl) hsources hcapacity
  | @fault _ _ _ _ f htext haccepted hbefore hs =>
    obtain ⟨t, ht⟩ := exists_failureText f
    exact .of_message ht h

/-- So does a listing that has no bytes. -/
theorem Verdict.of_no_bytes {qs : List Part} {f : Failure} (hfine : Fine d r input qs)
    (hbytes : listingBytes host (reached r qs).listing = .error f)
    (h : (buildPath host d r.options r.block input (some output)).result = .error (.failed f)) :
    Verdict host d r input (build host d r input output) := by
  rcases listingBytes_error hbytes with ⟨hmemory, rfl⟩ | ⟨o, -, rfl⟩ | ⟨text, why, -, -, rfl⟩
  · exact .unheld qs (build_of_no_message h rfl) hfine hmemory
  · exact .of_message rfl h
  · exact .of_message rfl h

end Verdicts

/-- Every run whose input can be read and whose output can be written comes to a verdict: status 0 for
sources that are fine, or else status 2 with a message, but for those kinds of failures that have none. -/
theorem run_verdict (host : Host) (d : Disk) (arguments : List String) (input : String) (r : Request)
    (hparse : parse arguments = .proceed input r) (h : Accessible host d r (Path.ofString input)) :
    Verdict host d r (Path.ofString input) (run host d arguments) := by
  obtain ⟨⟨entry, hentry⟩, hlisted, output, houtput, htakes⟩ := h
  rw [run_of_proceed hparse hentry houtput]
  rcases buildPath_cases host d r.options r.block (Path.ofString input) output with
    ⟨s, hstops, hresult, -⟩ | ⟨qs, l, hlists, -, hresult⟩
  · cases hstops with
    | unlisted hsources =>
      rw [notASource_of_collectSources hsources fun e he => hlisted e (he ▸ hsources)] at hresult
      exact .of_message rfl hresult
    | empty hsources => exact .of_refused (List.cons_ne_nil _ _) hresult
    | @source qs p more _ hsources hread hcompletes hends =>
      have hp : p ∈ qs.map Part.path ++ p :: more := List.mem_append_right _ List.mem_cons_self
      obtain ⟨bytes, hbytes⟩ := read_of_collectSources hentry hsources p hp
      exact .of_ends hends hsources hbytes hresult
  · have hfine : Fine d r (Path.ofString input) qs :=
      ⟨hlists.sources, fun hblock q hq => (hlists.read q hq).writtenOn hblock, hlists.completes⟩
    rcases writeListing_cases host d output l with
      ⟨e, -, hno, -⟩ | ⟨f, hfailure, hbytes, -⟩ | ⟨bytes, hnone, -, -⟩
    · exact absurd htakes hno
    · rw [hfailure] at hresult
      rw [hlists.listing] at hbytes
      exact .of_no_bytes hfine hbytes hresult
    · rw [hnone] at hresult
      have hending := build_of_ok hresult
      split at hending
      · exact .done qs hending hfine
      · next why hwhy => exact .unprintable qs hending hfine houtput hwhy

theorem accessible_sample (source listing : List UInt8) :
    Accessible .ample (sample source listing) { input := some "A.vm" } ⟨0, ["A.vm"]⟩ :=
  ⟨⟨_, rfl⟩, fun _ h => (nomatch (collectSources_sample source listing).symm.trans h),
    _, rfl, takes_sample source listing⟩

theorem not_unusable_ample (bytes : List UInt8) (e : Text.ReadError) :
    ¬ Text.Unusable Host.ample.room (some defaultBlock) bytes e := by
  intro h
  cases e with
  | undecodable u => exact h
  | noSize => cases h
  | sizeOutOfRange =>
    obtain ⟨n, hn, hsize⟩ := h
    cases hn
    exact hsize (by decide)
  | noMemory =>
    obtain ⟨n, -, hroom⟩ := h
    cases hroom

/-- Bytes that are no text are told of. -/
theorem run_verdict_undecodable :
    let s := run .ample (sample [255] []) ["A.vm"]
    s.ending = .exit 2 ∧ ∃ events text, s.err = logText false events ++ text ∧ IsMessage text := by
  intro s
  have haccessible : Accessible .ample (sample [255] []) { input := some "A.vm" } (Path.ofString "A.vm") := by
    rw [path_sample]
    exact accessible_sample [255] []
  have hsources : ∀ sources, collectSources (sample [255] []) (Path.ofString "A.vm") = .ok sources →
      sources = [⟨0, ["A.vm"]⟩] := by
    intro sources h
    rw [path_sample, collectSources_sample] at h
    exact (Except.ok.inj h).symm
  have hnoText : ∀ text, ¬ HasText (sample [255] []) ⟨0, ["A.vm"]⟩ text := by
    intro text ⟨bytes, cs, hread, hdecode, _⟩
    cases hread
    cases hdecode
  have hblock : some defaultBlock ≠ some 0 := by decide
  have hnotFine : ∀ qs, ¬ Fine (sample [255] []) { input := some "A.vm" } (Path.ofString "A.vm") qs := by
    intro qs hfine
    obtain ⟨q, rfl, hpath⟩ := List.map_eq_singleton_iff.1 (hsources _ hfine.sources)
    obtain ⟨text, htext, -⟩ := hfine.written hblock q (List.mem_singleton_self q)
    rw [hpath] at htext
    exact hnoText text htext
  cases run_verdict .ample (sample [255] []) ["A.vm"] "A.vm" _ parse_sample haccessible with
  | done qs hending hfine => exact absurd hfine (hnotFine qs)
  | told events text hending herr htext => exact ⟨hending, events, text, herr, htext⟩
  | overlong hending hall hp htext hread =>
    rw [hsources _ hall, List.mem_singleton] at hp
    rw [hp] at htext
    exact absurd (hasText_of_readSource htext hblock) (hnoText _)
  | unusable hending hall hp hread he => exact absurd he (not_unusable_ample _ _)
  | exhausted hending hall hmemory => exact absurd hmemory (Nat.lt_irrefl _)
  | unheld qs hending hfine => exact absurd hfine (hnotFine qs)
  | unprintable qs hending hfine => exact absurd hfine (hnotFine qs)

/-! ## Numbers that are too long to be read -/

theorem overlong_push {ds : List Char} (hds : Line.TokenKind.number.Spells ds) (hlength : 4300 < ds.length) :
    Line.Overlong ("push constant ".toList ++ ds) := by
  let ts : List (Line.TokenKind × List Char) := [(.word, "constant".toList), (.number, ds)]
  have hspells : ∀ t ∈ ts, t.1.Spells t.2 := by
    simpa [ts] using ⟨Line.spells_segment .constant, hds⟩
  refine ⟨.push "constant".toList ds, .read ds.length, ⟨?_, fun w hw => (nomatch hw)⟩,
    .pushNumber .constant hlength⟩
  refine ⟨[], Line.spaced ts, ?_, Line.blank_nil, rfl, Line.stops_spaced _ _, Line.written_spaced hspells⟩
  simp [Line.spaced, ts]

theorem splitLines_of_no_break {line : List Char} (hne : line ≠ []) (h : ∀ c ∈ line, Text.isBreak c = false) :
    Text.splitLines line = [line] := by
  rw [Text.splitLines, ← List.append_nil line, Text.splitLinesFrom_append h, List.append_nil,
    Text.splitLinesFrom_nil (List.reverse_ne_nil_iff.2 (by simpa using hne))]
  simp

def pushZeros (n : Nat) : List Char := "push constant ".toList ++ List.replicate n '0'

theorem pushZeros_chars {n : Nat} {c : Char} (h : c ∈ pushZeros n) :
    Text.isBreak c = false ∧ c.toNat < 128 ∧ c ≠ '\r' := by
  have hword : ("push constant ".toList.all fun c =>
      Text.isBreak c = false ∧ c.toNat < 128 ∧ c ≠ '\r') = true := by decide
  rcases List.mem_append.1 h with hc | hzero
  · exact of_decide_eq_true (List.all_eq_true.1 hword c hc)
  · obtain rfl : c = '0' := List.eq_of_mem_replicate hzero
    decide

theorem read_pushZeros {n : Nat} (h : 4300 < n) :
    ∃ phrase o, Script.read (pushZeros n) = .overlong phrase o := by
  have hzeros : Line.TokenKind.number.Spells (List.replicate n '0') := by
    refine ⟨fun hnil => ?_, fun c hc => ?_⟩
    · rw [List.replicate_eq_nil_iff] at hnil
      omega
    · rw [List.eq_of_mem_replicate hc]
      rfl
  have hoverlong : Line.Overlong (pushZeros n) := overlong_push hzeros (by rw [List.length_replicate]; exact h)
  have hillegible : ¬ Script.Legible (pushZeros n) := by
    intro hlegible
    refine hlegible (pushZeros n) ?_ hoverlong
    rw [splitLines_of_no_break (by exact nofun) fun c hc => (pushZeros_chars hc).1]
    exact List.mem_singleton_self _
  by_contra hnone
  exact hillegible (Script.legible_iff.2 fun p o hread => hnone ⟨p, o, hread⟩)

theorem run_pushZeros {n : Nat} (h : 4300 < n) (listing : List UInt8) :
    ∃ phrase o, (run .ample (sample (Utf8.plainBytes (pushZeros n)) listing) ["A.vm"]).ending =
      .escaped (.unreadable phrase o) := by
  obtain ⟨phrase, o, hover⟩ := read_pushZeros h
  have hread := readSource_sample (fun c hc => (pushZeros_chars (n := n) hc).2) listing
  have hsource : ∀ e, (buildSource .ample (sample (Utf8.plainBytes (pushZeros n)) listing)
      (some defaultBlock) e ⟨0, ["A.vm"]⟩).2 = .error (.failed (.unreadable phrase o)) := by
    intro e
    simp only [buildSource, hread, hover]
  rw [run_sample]
  exact ⟨phrase, o, build_of_no_message (r := { input := some "A.vm" }) (result_sample hsource) rfl⟩

/-- A digit more than can be read ends the run without a status. -/
theorem run_escaped :
    let d := sample (Utf8.plainBytes (pushZeros 4301)) []
    Accessible .ample d { input := some "A.vm" } ⟨0, ["A.vm"]⟩ ∧
      ∃ phrase o, (run .ample d ["A.vm"]).ending = .escaped (.unreadable phrase o) :=
  ⟨accessible_sample _ _, run_pushZeros (by decide) []⟩

end CommandLine

end HackVm
