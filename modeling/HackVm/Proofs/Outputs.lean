import HackVm.Proofs.Files
import HackVm.Proofs.Rendering

/-!
# Builds that are written to a disk

* `Host.Takes` : a file can be written at a path;
* `Wrote` : what the file at a path holds when nothing else has changed;
* `writeListing_cases` : a listing is written, or its file is emptied, or no file changes;
* `Stops` : everything that can be wrong with the sources of a path;
* `buildPath_cases` : the sources are no good, or their listing is written;
* `mem_sourcesIn`, `read_of_collectSources` : what counts as a source, and that it can be read.
-/

namespace HackVm

/-- A file can be written at the path, once the directories above it are made. -/
def Host.Takes (host : Host) (d : Disk) (p : Path) : Prop :=
  ∃ l d', (d.makeDirectories host.nesting p.parent).2 = .ok l ∧
    (d.makeDirectories host.nesting p.parent).1.write p [] = .ok d'

namespace Build
open Emitter

/-! ## Writing a listing -/

/-- On the disk `d'` the file at `p` holds these bytes, and all others are as on `d`. -/
def Wrote (host : Host) (d d' : Disk) (p : Path) (bytes : List UInt8) : Prop :=
  ∃ l, (d.makeDirectories host.nesting p.parent).1.locate p = .ok l ∧ d'.file? l = some bytes ∧
    d.Frame d' (· = l)

theorem listingBytes_error {host : Host} {l : Listing} {f : Failure} (h : listingBytes host l = .error f) :
    (host.holdsText l = false ∧ f = .noMemory) ∨
    (∃ o, l.render = .error o ∧ f = .unwritable o) ∨
    ∃ text why, l.render = .ok text ∧ host.unencodable? text = some why ∧ f = .unencodable why := by
  unfold listingBytes Host.encode at h
  split at h
  · next hmemory =>
    cases h
    exact .inl ⟨Bool.eq_false_iff.2 hmemory, rfl⟩
  · split at h
    · next o hrender =>
      cases h
      exact .inr (.inl ⟨o, hrender, rfl⟩)
    · next text hrender =>
      split at h
      · next why hwhy =>
        cases h
        exact .inr (.inr ⟨text, why, hrender, hwhy, rfl⟩)
      · cases h

/-- Everything that writing a listing can come to. -/
theorem writeListing_cases (host : Host) (d : Disk) (output : Path) (l : Listing) :
    (∃ e, (writeListing host d output l).2 = some (.disk e) ∧ ¬ host.Takes d output ∧
      d.Frame (writeListing host d output l).1 fun _ => False) ∨
    (∃ f, (writeListing host d output l).2 = some f ∧ listingBytes host l = .error f ∧
      Wrote host d (writeListing host d output l).1 output []) ∨
    ∃ bytes, (writeListing host d output l).2 = none ∧ listingBytes host l = .ok bytes ∧
      Wrote host d (writeListing host d output l).1 output bytes := by
  have hmade := d.frame_makeDirectories host.nesting output.parent
  unfold writeListing Host.Takes Wrote
  cases hdirectories : d.makeDirectories host.nesting output.parent with
  | mk d₁ result =>
    rw [hdirectories] at hmade
    cases result with
    | error e => exact .inl ⟨e, rfl, fun ⟨_, _, h, _⟩ => (nomatch h), hmade⟩
    | ok m =>
      dsimp only
      cases hwrite : d₁.write output [] with
      | error e => exact .inl ⟨e, rfl, fun ⟨_, _, _, h⟩ => (nomatch h), hmade⟩
      | ok d₂ =>
        dsimp only
        cases hbytes : listingBytes host l with
        | error f =>
          obtain ⟨k, hk, hempty, hframe⟩ := Disk.frame_write hwrite
          exact .inr (.inl ⟨f, rfl, rfl, k, hk, hempty, (hmade.mono fun _ h => h.elim).trans hframe⟩)
        | ok bytes =>
          obtain ⟨d₃, hagain, k, hk, hfile, hframe⟩ := Disk.write_again hwrite bytes
          refine .inr (.inr ⟨bytes, ?_, rfl, k, hk, ?_, (hmade.mono fun _ h => h.elim).trans ?_⟩)
          · simp only [hagain]
          · simp only [hagain]
            exact hfile
          · simp only [hagain]
            exact hframe

/-! ## The sources of a path -/

theorem isFile_of_filterAuxM {d : Disk} {ps done out : List Path}
    (h : List.filterAuxM d.isFile ps done = .ok out) :
    ∀ p ∈ out, p ∈ done ∨ (p ∈ ps ∧ d.isFile p = .ok true) := by
  induction ps generalizing done with
  | nil =>
    cases h
    exact fun p hp => .inl hp
  | cons p ps ih =>
    unfold List.filterAuxM at h
    obtain ⟨keep, hkeep, h⟩ := bind_eq_ok.1 h
    intro q hq
    cases keep with
    | true =>
      rcases ih h q hq with hdone | ⟨hps, hfile⟩
      · rcases List.mem_cons.1 hdone with rfl | hdone
        · exact .inr ⟨List.mem_cons_self, hkeep⟩
        · exact .inl hdone
      · exact .inr ⟨List.mem_cons_of_mem p hps, hfile⟩
    | false =>
      rcases ih h q hq with hdone | ⟨hps, hfile⟩
      · exact .inl hdone
      · exact .inr ⟨List.mem_cons_of_mem p hps, hfile⟩

theorem isFile_of_filterM {d : Disk} {ps out : List Path} (h : ps.filterM d.isFile = .ok out) :
    ∀ p ∈ out, p ∈ ps ∧ d.isFile p = .ok true := by
  unfold List.filterM at h
  obtain ⟨reversed, hreversed, h⟩ := bind_eq_ok.1 h
  cases h
  intro p hp
  exact (isFile_of_filterAuxM hreversed p (List.mem_reverse.1 hp)).resolve_left List.not_mem_nil

/-- The sources in a directory are files with the names of sources. -/
theorem mem_sourcesIn {d : Disk} {p : Path} {sources : List Path} (h : sourcesIn d p = .ok sources) :
    ∀ q ∈ sources, d.isFile q = .ok true ∧ ∃ name, isSourceName name = true ∧ q = p.child name := by
  intro q hq
  unfold sourcesIn at h
  split at h
  · cases h
    cases hq
  · obtain ⟨hmem, hfile⟩ := isFile_of_filterM h q hq
    obtain ⟨name, hname, rfl⟩ := List.mem_map.1 hmem
    rw [List.mem_mergeSort, List.mem_filter] at hname
    exact ⟨hfile, name, hname.2, rfl⟩

theorem sourcesIn_of_collectSources {d : Disk} {p : Path} {sources : List Path}
    (hdirectory : d.isDirectory p = .ok true) (h : collectSources d p = .ok sources) :
    sourcesIn d p = .ok sources := by
  unfold collectSources at h
  rw [hdirectory] at h
  cases hin : sourcesIn d p with
  | error e =>
    rw [hin] at h
    cases h
  | ok out =>
    rw [hin] at h
    cases h
    rfl

/-- The sources of an existing path are files that can be read. -/
theorem read_of_collectSources {d : Disk} {input : Path} {e : Entry} {sources : List Path}
    (hentry : d.entry? input = .ok (some e)) (h : collectSources d input = .ok sources) :
    ∀ p ∈ sources, ∃ bytes, d.read p = .ok bytes := by
  have hdirectory : d.isDirectory input = .ok (some e == some .directory) := by
    unfold Disk.isDirectory
    rw [hentry]
    rfl
  cases e with
  | directory =>
    intro p hp
    exact Disk.read_of_isFile (mem_sourcesIn (sourcesIn_of_collectSources hdirectory h) p hp).1
  | file bytes =>
    unfold collectSources at h
    rw [hdirectory] at h
    change (if suffix input.name = sourceSuffix then Except.ok [input]
      else Except.error (Failure.notASource input)) = _ at h
    split at h
    · cases h
      exact List.forall_mem_singleton.2 (Disk.read_of_entry? hentry (by exact nofun))
    · cases h

/-! ## Whole builds -/

/-- Everything that can be wrong with the sources of a path. -/
inductive Stops (host : Host) (d : Disk) (o : Options) (block : Option Int) (input : Path) : Stop → Prop
  | unlisted {f : Failure} (h : collectSources d input = .error f) : Stops host d o block input (.failed f)
  | empty (h : collectSources d input = .ok []) : Stops host d o block input (.refused [.noSources input])
  /-- The sources before a bad one are fine. -/
  | source {qs : List Part} {p : Path} {more : List Path} {s : Stop}
    (h : collectSources d input = .ok (qs.map Part.path ++ p :: more))
    (hread : ∀ q ∈ qs, q.ReadFrom host d block)
    (hcompletes : ({ options := o } : Emitter).Completes (program o qs))
    (hends : Ends host d block (({ options := o } : Emitter).after (program o qs)) p s) :
    Stops host d o block input s

/-- The sources of a path are fine, and this is their listing. -/
structure Lists (host : Host) (d : Disk) (o : Options) (block : Option Int) (input : Path)
    (qs : List Part) (l : Listing) : Prop where
  sources : collectSources d input = .ok (qs.map Part.path)
  read : ∀ q ∈ qs, q.ReadFrom host d block
  affords : Affords host (({ options := o } : Emitter).after (opening o)) qs
  completes : ({ options := o } : Emitter).Completes (program o qs)
  listing : l = (({ options := o } : Emitter).after (program o qs)).listing

/-- The outcome of writing a listing is the outcome of the build. -/
theorem buildPath_of_lists {host : Host} {d : Disk} {o : Options} {block : Option Int} {input : Path}
    {qs : List Part} {l : Listing} (h : Lists host d o block input qs l) (hne : qs ≠ []) (output : Path) :
    (buildPath host d o block input (some output)).disk = (writeListing host d output l).1 ∧
      (buildPath host d o block input (some output)).result =
        match (writeListing host d output l).2 with
        | some f => .error (.failed f)
        | none => .ok l := by
  obtain ⟨hsources, hread, haffords, hcompletes, rfl⟩ := h
  have hok := buildSources_of_completes hread haffords hcompletes
  unfold buildPath
  rw [hsources]
  cases qs with
  | nil => exact absurd rfl hne
  | cons q qs =>
    cases hbuilt : buildSources host d o block ((q :: qs).map Part.path) with
    | mk events result =>
      rw [hbuilt] at hok
      cases hok
      rw [List.map_cons] at hbuilt ⊢
      simp only [outputFor, hbuilt]
      cases writeListing host d output _ with
      | mk d' failure => cases failure <;> exact ⟨rfl, rfl⟩

theorem buildPath_of_error {host : Host} {d : Disk} {o : Options} {block : Option Int} {input p : Path}
    {ps : List Path} {s : Stop} (hsources : collectSources d input = .ok (p :: ps))
    (h : (buildSources host d o block (p :: ps)).2 = .error s) (output : Path) :
    (buildPath host d o block input (some output)).result = .error s ∧
      (buildPath host d o block input (some output)).disk = d := by
  unfold buildPath
  rw [hsources]
  cases hbuilt : buildSources host d o block (p :: ps) with
  | mk events result =>
    rw [hbuilt] at h
    cases h
    simp only [hbuilt, and_self]

/-- Nothing is written unless all sources are fine. -/
theorem buildPath_cases (host : Host) (d : Disk) (o : Options) (block : Option Int) (input output : Path) :
    (∃ s, Stops host d o block input s ∧ (buildPath host d o block input (some output)).result = .error s ∧
      (buildPath host d o block input (some output)).disk = d) ∨
    ∃ qs l, Lists host d o block input qs l ∧
      (buildPath host d o block input (some output)).disk = (writeListing host d output l).1 ∧
      (buildPath host d o block input (some output)).result =
        match (writeListing host d output l).2 with
        | some f => .error (.failed f)
        | none => .ok l := by
  cases hsources : collectSources d input with
  | error f =>
    refine .inl ⟨_, .unlisted hsources, ?_⟩
    unfold buildPath
    rw [hsources]
    exact ⟨rfl, rfl⟩
  | ok sources =>
    cases sources with
    | nil =>
      refine .inl ⟨_, .empty hsources, ?_⟩
      unfold buildPath
      rw [hsources]
      exact ⟨rfl, rfl⟩
    | cons p ps =>
      rcases buildSources_ends host d o block (p :: ps) with
        ⟨qs, hqs, hread, haffords, hcompletes, -⟩ | ⟨qs, p', more, s, hqs, hread, hcompletes, hends, herror⟩
      · have hne : qs ≠ [] := by
          intro hnil
          rw [hnil] at hqs
          cases hqs
        have hlists : Lists host d o block input qs _ :=
          ⟨hqs.symm ▸ hsources, hread, haffords, hcompletes, rfl⟩
        exact .inr ⟨qs, _, hlists, buildPath_of_lists hlists hne output⟩
      · have hstop : (buildSources host d o block (p :: ps)).2 = .error s := by
          rw [hqs, List.append_cons, buildSources_append_of_error herror, herror]
        exact .inl ⟨s, .source (hqs ▸ hsources) hread hcompletes hends,
          buildPath_of_error hsources hstop output⟩

end Build

end HackVm
