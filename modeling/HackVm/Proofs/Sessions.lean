import HackVm.CommandLine.Session
import HackVm.Proofs.Outputs
import HackVm.Proofs.Requests

/-!
# What runs leave behind

A run that fails has not touched a file, unless it fails behind the sources: the file for the listing is
emptied before its bytes are made up, and the listing may have none; and the name of the listing is shown
when it is written, and may be one that cannot be shown.

* `run_cases`, `run_of_proceed` : a run is a build, or leaves the disk alone;
* `build_of_ok`, `build_of_refused`, `build_of_message`, `build_of_no_message` : how a build ends the run;
* `Spoils` : how a run fails behind its sources;
* `run_untouched` : the files after a run that fails;
* `run_call` : a run that empties the listing.
-/

namespace HackVm

namespace CommandLine
open Build

/-! ## Runs and builds -/

/-- A run leaves the disk alone unless it builds an existing input. -/
theorem run_cases (host : Host) (d : Disk) (arguments : List String) :
    (run host d arguments).disk = d ∨
    ∃ input r output e, parse arguments = .proceed input r ∧
      d.entry? (Path.ofString input) = .ok (some e) ∧ r.outputFor d (Path.ofString input) = .ok output ∧
      run host d arguments = build host d r (Path.ofString input) output := by
  unfold run
  cases hparse : parse arguments with
  | help => exact .inl rfl
  | refuse e => exact .inl rfl
  | proceed input r =>
    dsimp only
    cases hentry : d.entry? (Path.ofString input) with
    | error e => exact .inl rfl
    | ok entry =>
      cases entry with
      | none => exact .inl rfl
      | some entry =>
        cases houtput : r.outputFor d (Path.ofString input) with
        | error e => exact .inl rfl
        | ok output => exact .inr ⟨input, r, output, entry, rfl, hentry, houtput, rfl⟩

theorem run_of_proceed {host : Host} {d : Disk} {arguments : List String} {input : String} {r : Request}
    {output : Path} {e : Entry} (hparse : parse arguments = .proceed input r)
    (hentry : d.entry? (Path.ofString input) = .ok (some e))
    (houtput : r.outputFor d (Path.ofString input) = .ok output) :
    run host d arguments = build host d r (Path.ofString input) output := by
  unfold run
  rw [hparse]
  dsimp only
  rw [hentry, houtput]

section Build
variable (host : Host) (d : Disk) (r : Request) (input output : Path)

theorem disk_build :
    (build host d r input output).disk = (buildPath host d r.options r.block input (some output)).disk := by
  unfold build
  dsimp only
  split
  · split <;> rfl
  · rfl
  · split <;> rfl

variable {host d r input output}

/-- If a build goes through, nothing is left to fail but showing the name of the listing. -/
theorem build_of_ok {l : Listing}
    (h : (buildPath host d r.options r.block input (some output)).result = .ok l) :
    (build host d r input output).ending =
      match host.unprintable? (writtenLine (build host d r input output).disk output) with
      | none => .exit 0
      | some why => .escaped (.unprintable why) := by
  rw [disk_build]
  simp only [build, h]
  split <;> simp only [*]

theorem build_of_refused {ds : List Diagnostic}
    (h : (buildPath host d r.options r.block input (some output)).result = .error (.refused ds)) :
    (build host d r input output).ending = .exit 2 ∧
      ∃ events, (build host d r input output).err =
        logText r.verbose events ++ String.join (ds.map fun x => x.message ++ "\n") := by
  simp only [build, h, true_and]
  exact ⟨_, rfl⟩

theorem build_of_message {f : Failure} {t : String}
    (h : (buildPath host d r.options r.block input (some output)).result = .error (.failed f))
    (ht : failureText? f = some t) :
    (build host d r input output).ending = .exit 2 ∧
      ∃ events, (build host d r input output).err = logText r.verbose events ++ t := by
  simp only [build, h, ht, true_and]
  exact ⟨_, rfl⟩

theorem build_of_no_message {f : Failure}
    (h : (buildPath host d r.options r.block input (some output)).result = .error (.failed f))
    (ht : failureText? f = none) : (build host d r input output).ending = .escaped f := by
  simp only [build, h, ht]

end Build

/-! ## One source -/

/-- A disk with a source and an earlier listing of it. -/
def sample (source listing : List UInt8) : Disk :=
  { entries := [(.ofNames ["A.vm"], .file source), (.ofNames ["A.asm"], .file listing)] }

theorem parse_sample : parse ["A.vm"] = .proceed "A.vm" { input := some "A.vm" } := by decide

theorem path_sample : Path.ofString "A.vm" = ⟨0, ["A.vm"]⟩ := by decide

theorem run_sample (host : Host) (source listing : List UInt8) : run host (sample source listing) ["A.vm"] =
    build host (sample source listing) { input := some "A.vm" } ⟨0, ["A.vm"]⟩ ⟨0, ["A.asm"]⟩ := by
  unfold run
  rw [parse_sample]
  dsimp only
  rw [path_sample]
  rfl

theorem collectSources_sample (source listing : List UInt8) :
    collectSources (sample source listing) ⟨0, ["A.vm"]⟩ = .ok [⟨0, ["A.vm"]⟩] := rfl

theorem readSource_sample {cs : List Char} (h : Text.Plain cs) (listing : List UInt8) :
    readSource Host.ample.openText (sample (Utf8.plainBytes cs) listing) (some defaultBlock) ⟨0, ["A.vm"]⟩ =
      .ok cs :=
  readSource_plainBytes rfl h rfl

/-- What is wrong with the source is wrong with the build. -/
theorem result_sample {source listing : List UInt8} {s : Stop}
    (h : ∀ e, (buildSource .ample (sample source listing) (some defaultBlock) e ⟨0, ["A.vm"]⟩).2 = .error s) :
    (buildPath .ample (sample source listing) {} (some defaultBlock) ⟨0, ["A.vm"]⟩
      (some ⟨0, ["A.asm"]⟩)).result = .error s := by
  have hbuilt : (buildSources .ample (sample source listing) {} (some defaultBlock) [⟨0, ["A.vm"]⟩]).2 =
      .error s := by
    rw [buildSources_eq, buildAll_of_error (h _)]
    rfl
  exact (buildPath_of_error (collectSources_sample _ _) hbuilt ⟨0, ["A.asm"]⟩).1

theorem readSource_undecodable (listing : List UInt8) :
    ∃ u, readSource Host.ample.openText (sample [255] listing) (some defaultBlock) ⟨0, ["A.vm"]⟩ =
      .error (.source (.undecodable u)) := by
  rw [readSource_of_read rfl, Text.Opened.readAll, Text.Opened.readFrom_of_error rfl]
  exact ⟨_, rfl⟩

theorem file?_sample (source listing : List UInt8) :
    (sample source listing).file? (.ofNames ["A.asm"]) = some listing := rfl

theorem takes_sample (source listing : List UInt8) :
    Host.ample.Takes (sample source listing) ⟨0, ["A.asm"]⟩ := ⟨_, _, rfl, rfl⟩

/-! ## What failed runs leave behind -/

theorem writable_of_readFrom {host : Host} {d : Disk} {block : Option Int} {qs : List Part}
    (h : ∀ q ∈ qs, q.ReadFrom host d block) : ∀ c ∈ commandsOf qs, c.Writable := by
  intro c hc
  obtain ⟨q, hq, hc⟩ := List.mem_flatMap.1 hc
  obtain ⟨s, hs, rfl⟩ := List.mem_map.1 hc
  obtain ⟨text, -, haccepted⟩ := h q hq
  exact Script.writable_of_readFrom haccepted (fun _ hnil => nomatch hnil) s hs

/-- How a run fails with sources that are all fine, once it has opened the file for their listing. -/
inductive Spoils (host : Host) (d : Disk) (qs : List Part) (l : Listing) (output : Path) (s : Session) : Prop
  /-- The frame of a call has too long a size. The file is left empty. -/
  | overlong {name : String} {k : Int} (hcall : .call name k ∈ commandsOf qs)
    (hk : ¬ Numeral.Fits (Block.frameSize + k)) (hending : s.ending = .exit 2)
    (hdisk : Wrote host d s.disk output [])
  /-- There is no memory for the text of the listing. The file is left empty. -/
  | exhausted (hmemory : host.holdsText l = false) (hending : s.ending = .escaped .noMemory)
    (hdisk : Wrote host d s.disk output [])
  /-- The text of the listing cannot be encoded. The file is left empty. -/
  | unencodable {text why : String} (hrender : l.render = .ok text)
    (hwhy : host.unencodable? text = some why) (hending : s.ending = .exit 2)
    (hdisk : Wrote host d s.disk output [])
  /-- The listing is there, but its name cannot be shown. -/
  | unprintable {bytes : List UInt8} {why : String} (hbytes : listingBytes host l = .ok bytes)
    (hwhy : host.unprintable? (writtenLine s.disk output) = some why)
    (hending : s.ending = .escaped (.unprintable why)) (hdisk : Wrote host d s.disk output bytes)

section Spoils
variable {host : Host} {d : Disk} {r : Request} {input output : Path} {qs : List Part} {l : Listing}

theorem Spoils.of_no_bytes {f : Failure} (hlists : Lists host d r.options r.block input qs l)
    (hfits : r.Fitting) (hbytes : listingBytes host l = .error f)
    (hresult : (buildPath host d r.options r.block input (some output)).result = .error (.failed f))
    (hdisk : Wrote host d (build host d r input output).disk output []) :
    Spoils host d qs l output (build host d r input output) := by
  rcases listingBytes_error hbytes with ⟨hmemory, rfl⟩ | ⟨o, hrender, rfl⟩ | ⟨text, why, hrender, hwhy, rfl⟩
  · exact .exhausted hmemory (build_of_no_message hresult rfl) hdisk
  · have hlaid := laid_of_completes hlists.completes
    rw [← hlists.listing] at hlaid
    rcases hlaid.render_cases hfits (writable_of_readFrom hlists.read) with hok | ⟨name, k, hcall, hk⟩
    · exact nomatch hok.symm.trans hrender
    · exact .overlong hcall hk (build_of_message hresult rfl).1 hdisk
  · exact .unencodable hrender hwhy (build_of_message hresult rfl).1 hdisk

end Spoils

/-- A run that does not succeed leaves every file as it was and makes none, unless all sources are fine and
the run fails for their listing: the frame of a call has too long a size, there is no memory for the text,
the text cannot be encoded, or the name of the listing cannot be shown. Such a run touches no file but that
for the listing, which it leaves complete in the last case and empty in the others. -/
theorem run_untouched (host : Host) (d : Disk) (arguments : List String)
    (h : (run host d arguments).ending ≠ .exit 0) :
    d.Frame (run host d arguments).disk (fun _ => False) ∨
    ∃ input r output qs l, parse arguments = .proceed input r ∧
      r.outputFor d (Path.ofString input) = .ok output ∧
      Lists host d r.options r.block (Path.ofString input) qs l ∧
      Spoils host d qs l output (run host d arguments) := by
  rcases run_cases host d arguments with hsame | ⟨input, r, output, e, hparse, hentry, houtput, hrun⟩
  · rw [hsame]
    exact .inl (.refl d _)
  · rw [hrun] at h ⊢
    have hdisk := disk_build host d r (Path.ofString input) output
    rcases buildPath_cases host d r.options r.block (Path.ofString input) output with
      ⟨s, -, -, hbuilt⟩ | ⟨qs, l, hlists, hbuilt, hresult⟩
    · rw [hdisk, hbuilt]
      exact .inl (.refl d _)
    · rw [hbuilt] at hdisk
      rcases writeListing_cases host d output l with
        ⟨e, -, -, hframe⟩ | ⟨f, hfailure, hbytes, hwrote⟩ | ⟨bytes, hnone, hbytes, hwrote⟩
      · rw [hdisk]
        exact .inl hframe
      · rw [hfailure] at hresult
        rw [← hdisk] at hwrote
        exact .inr ⟨input, r, output, qs, l, hparse, houtput, hlists,
          .of_no_bytes hlists (fitting_of_parse hparse) hbytes hresult hwrote⟩
      · rw [hnone] at hresult
        rw [← hdisk] at hwrote
        have hending := build_of_ok hresult
        split at hending
        · exact absurd hending h
        · next why hwhy =>
          exact .inr ⟨input, r, output, qs, l, hparse, houtput, hlists,
            .unprintable hbytes hwhy hending hwrote⟩

/-- A source that is no text leaves the earlier listing. -/
theorem run_untouched_undecodable :
    (run .ample (sample [255] [111, 108, 100]) ["A.vm"]).disk.file? (.ofNames ["A.asm"]) =
      some [111, 108, 100] := by
  obtain ⟨u, hread⟩ := readSource_undecodable [111, 108, 100]
  have hresult := result_sample (buildSource_of_error hread)
  have hfailed : (run .ample (sample [255] [111, 108, 100]) ["A.vm"]).ending ≠ .exit 0 := by
    rw [run_sample, (build_of_message (r := { input := some "A.vm" }) hresult rfl).1]
    decide
  rcases run_untouched _ _ _ hfailed with hframe | ⟨input, r, output, qs, l, hparse, -, hlists, -⟩
  · exact hframe _ id
  · cases hparse.symm.trans parse_sample
    rw [path_sample] at hlists
    have hsources : qs.map Part.path = [⟨0, ["A.vm"]⟩] := Except.ok.inj (hlists.sources.symm.trans rfl)
    obtain ⟨q, rfl, hpath⟩ := List.map_eq_singleton_iff.1 hsources
    obtain ⟨text, htext, -⟩ := hlists.read q (List.mem_singleton_self q)
    rw [hpath] at htext
    exact nomatch htext.symm.trans hread

theorem plain_number (n : Nat) : Text.Plain (Numeral.text n).toList := by
  intro c hc
  have hdigit := Numeral.isDigit_of_mem_text hc
  rw [Numeral.isDigit_eq, Char.isDigit_iff_toNat] at hdigit
  refine ⟨Nat.lt_of_le_of_lt hdigit.2 (by decide), fun hreturn => ?_⟩
  rw [hreturn] at hdigit
  exact absurd hdigit.1 (by decide)

theorem plain_call (k : Nat) : Text.Plain (Command.call "f" k).text.toList := by
  have hhead : ("call f ".toList.all fun c => c.toNat < 128 ∧ c ≠ '\r') = true := by decide
  intro c hc
  rw [Command.text, String.toList_append, List.mem_append] at hc
  rcases hc with hc | hc
  · exact of_decide_eq_true (List.all_eq_true.1 hhead c hc)
  · exact plain_number k c hc

theorem read_call {k : Nat} (h : Numeral.Fits k) :
    Script.read (Command.call "f" k).text.toList = .accepted [⟨1, .call "f" k⟩] := by
  have hwritable : (Command.call "f" k).Writable :=
    ⟨⟨'f', [], rfl, by decide, fun _ h => nomatch h⟩, Int.natCast_nonneg k, h⟩
  have hread := Script.read_printed_of_writable (List.forall_mem_singleton.2 hwritable)
  rw [Script.printed, List.map_singleton, String.intercalate_singleton] at hread
  exact hread

theorem completes_call {k : Nat} (h : Numeral.Fits k) :
    ({ options := {} } : Emitter).Completes (program {} [⟨⟨0, ["A.vm"]⟩, [⟨1, .call "f" k⟩]⟩]) := by
  refine Emitter.completes_append.2 ⟨completes_opening {}, ?_⟩
  refine Emitter.completes_cons.2 ⟨rfl, Emitter.completes_cons.2 ⟨?_, Emitter.completes_nil _⟩⟩
  have hfits : ∀ n ∈ [(k : Int), 1], Numeral.Fits n :=
    List.forall_mem_cons.2 ⟨h, List.forall_mem_singleton.2 (by decide)⟩
  exact congrArg Prod.snd (Emitter.emitCode_of_fits hfits)

/-- A call that can be read, but whose frame has too long a size, empties the earlier listing. -/
theorem run_call {k : Nat} (hfits : Numeral.Fits k) (hframe : ¬ Numeral.Fits (Block.frameSize + k))
    (listing : List UInt8) {s : Session}
    (hs : s = run .ample (sample (Utf8.plainBytes (Command.call "f" k).text.toList) listing) ["A.vm"]) :
    s.ending = .exit 2 ∧ s.disk.file? (.ofNames ["A.asm"]) = some [] := by
  rw [hs, run_sample]
  have hread : Part.ReadFrom .ample (sample (Utf8.plainBytes (Command.call "f" k).text.toList) listing)
      (some defaultBlock) ⟨⟨0, ["A.vm"]⟩, [⟨1, .call "f" k⟩]⟩ :=
    ⟨_, readSource_sample (plain_call k) listing, read_call hfits⟩
  have hlists : Lists .ample (sample (Utf8.plainBytes (Command.call "f" k).text.toList) listing) {}
      (some defaultBlock) ⟨0, ["A.vm"]⟩ [⟨⟨0, ["A.vm"]⟩, [⟨1, .call "f" k⟩]⟩] _ :=
    ⟨collectSources_sample _ _, List.forall_mem_singleton.2 hread, affords_ample _ _, completes_call hfits,
      rfl⟩
  have hrender := (laid_of_completes (completes_call hfits)).render_of_call (List.mem_singleton_self _) hframe
  obtain ⟨hdisk, hresult⟩ := buildPath_of_lists hlists (List.cons_ne_nil _ []) ⟨0, ["A.asm"]⟩
  rcases writeListing_cases .ample (sample (Utf8.plainBytes (Command.call "f" k).text.toList) listing)
      ⟨0, ["A.asm"]⟩ _ with
    ⟨e, -, htakes, -⟩ | ⟨f, hfailure, hbytes, m, hm, hempty, -⟩ | ⟨bytes, -, hbytes, -⟩
  · exact absurd (takes_sample _ _) htakes
  · rcases listingBytes_error hbytes with ⟨hmemory, -⟩ | ⟨o, -, rfl⟩ | ⟨text, why, hok, -⟩
    · cases hmemory
    · rw [hfailure] at hresult
      rw [← hdisk] at hempty
      obtain rfl : Location.ofNames ["A.asm"] = m := Except.ok.inj hm
      have hending := build_of_message (r := { input := some "A.vm" }) hresult rfl
      rw [disk_build]
      exact ⟨hending.1, hempty⟩
    · exact nomatch hrender.symm.trans hok
  · simp only [listingBytes, hrender] at hbytes
    cases hbytes

/-- A call with so many arguments that the size of its frame has a digit more. -/
theorem run_emptied :
    let k : Nat := 10 ^ Numeral.limit - 1
    let d := sample (Utf8.plainBytes (Command.call "f" k).text.toList) [111, 108, 100]
    d.file? (.ofNames ["A.asm"]) = some [111, 108, 100] ∧ (run .ample d ["A.vm"]).ending = .exit 2 ∧
      (run .ample d ["A.vm"]).disk.file? (.ofNames ["A.asm"]) = some [] := by
  intro k d
  have hpos : 0 < 10 ^ Numeral.limit := Nat.pow_pos (by decide)
  have hfits : Numeral.Fits k := Numeral.fits_natCast.2 (Nat.sub_lt hpos Nat.one_pos)
  have hframe : ¬ Numeral.Fits (Block.frameSize + k) := by
    rw [← Int.natCast_add, Numeral.fits_natCast, Block.frameSize]
    omega
  exact ⟨file?_sample _ _, run_call hfits hframe _ rfl⟩

end CommandLine

end HackVm
