import HackVm.Build.Source
import HackVm.Proofs.Decoding
import HackVm.Proofs.Outcome
import HackVm.Proofs.Reads

/-!
# The text of a source

* `Text.Plain`, `Utf8.plainBytes` : texts of which each character is one byte;
* `Build.HasText` : the whole text of a file;
* `Build.readSource_cases`, `Build.hasText_of_readSource` : reading a source gives its whole text or fails
  because of the size of the blocks;
* `Build.readSource_encoded` : a source is read back from its bytes through every text layer that delivers
  them.
-/

namespace HackVm

/-! ## Plain text -/

/-- The characters that are one byte each and stay as they are, whatever ends a line. -/
def Text.Plain (cs : List Char) : Prop := ∀ c ∈ cs, c.toNat < 128 ∧ c ≠ '\r'

instance (cs : List Char) : Decidable (Text.Plain cs) :=
  decidable_of_iff (cs.all (fun c => c.toNat < 128 && c != '\r') = true) (by simp [Text.Plain])

def Utf8.plainBytes (cs : List Char) : List UInt8 := cs.map fun c => c.toNat.toUInt8

theorem Utf8.decodeFrom_plainBytes {cs : List Char} (h : Text.Plain cs) (offset : Nat) (done : List Char) :
    decodeFrom offset done none (plainBytes cs) = .ok (done.reverse ++ cs) := by
  induction cs generalizing offset done with
  | nil => exact congrArg Except.ok (List.append_nil _).symm
  | cons c cs ih =>
    obtain ⟨⟨hc, -⟩, hcs⟩ := List.forall_mem_cons.1 h
    have hbyte : c.toNat.toUInt8.toNat = c.toNat := by
      simp only [Nat.toUInt8_eq, UInt8.toNat_ofNat']
      omega
    have hlow : c.toNat.toUInt8 < 0x80 := by
      rw [UInt8.lt_iff_toNat_lt, hbyte]
      exact hc
    rw [plainBytes, List.map_cons, decodeFrom, if_pos hlow, hbyte, Char.ofNat_toNat]
    rw [← plainBytes, ih hcs, List.reverse_cons, List.append_assoc]
    rfl

namespace Text

theorem unifyNewlinesFrom_plain {cs : List Char} (h : Plain cs) (done : List Char) :
    unifyNewlinesFrom done cs = done.reverse ++ cs := by
  induction cs generalizing done with
  | nil => exact (List.append_nil _).symm
  | cons c cs ih =>
    obtain ⟨⟨-, hc⟩, hcs⟩ := List.forall_mem_cons.1 h
    have hcons : unifyNewlinesFrom done (c :: cs) = unifyNewlinesFrom (c :: done) cs := by
      rw [unifyNewlinesFrom.eq_def]
      split
      · next hnil => cases hnil
      · next heq =>
        exact absurd (List.cons.inj heq).1 hc
      · next heq =>
        obtain ⟨rfl, rfl⟩ := List.cons.inj heq
        rw [if_neg hc]
    rw [hcons, ih hcs, List.reverse_cons, List.append_assoc]
    rfl

end Text

namespace Build

/-- A file at `p` holds `text` in UTF-8, however its lines end. -/
def HasText (d : Disk) (p : Path) (text : List Char) : Prop :=
  ∃ bytes cs, d.read p = .ok bytes ∧ Utf8.decode bytes = .ok cs ∧ text = Text.unifyNewlines cs

theorem HasText.unique {d : Disk} {p : Path} {text text' : List Char} (h : HasText d p text)
    (h' : HasText d p text') : text = text' := by
  obtain ⟨bytes, cs, hread, hdecode, rfl⟩ := h
  obtain ⟨bytes', cs', hread', hdecode', rfl⟩ := h'
  obtain rfl : bytes = bytes' := Except.ok.inj (hread.symm.trans hread')
  obtain rfl : cs = cs' := Except.ok.inj (hdecode.symm.trans hdecode')
  rfl

theorem readSource_of_read {layer : List UInt8 → Text.Opened} {d : Disk} {p : Path} {bytes : List UInt8}
    (h : d.read p = .ok bytes) (block : Option Int) :
    readSource layer d block p = ((layer bytes).readAll block).mapError .source := by
  unfold readSource
  rw [h]

section Source
variable {host : Host} {d : Disk} {p : Path} {bytes : List UInt8} {text : List Char} {block : Option Int}

theorem readSource_cases (h : HasText d p text) (hread : d.read p = .ok bytes) (hblock : block ≠ some 0) :
    readSource host.openText d block p = .ok text ∨
    ∃ e, Text.Unusable host.room block bytes e ∧ readSource host.openText d block p = .error (.source e) := by
  obtain ⟨bytes', cs, hread', hdecode, rfl⟩ := h
  obtain rfl : bytes = bytes' := Except.ok.inj (hread.symm.trans hread')
  rw [readSource_of_read hread]
  rcases Text.readAll_cases hblock host.room bytes with ⟨cs', hcs, hok⟩ | ⟨u, v, hu, -⟩ | ⟨e, he, herror⟩
  · obtain rfl : cs = cs' := Except.ok.inj (hdecode.symm.trans hcs)
    exact .inl (by rw [Host.openText, hok]; rfl)
  · exact nomatch hdecode.symm.trans hu
  · exact .inr ⟨e, he, by rw [Host.openText, herror]; rfl⟩

/-- Plain text is read as it is. -/
theorem readSource_plainBytes {cs : List Char} (h : d.read p = .ok (Utf8.plainBytes cs))
    (hcs : Text.Plain cs) (hroom : host.room defaultBlock (Utf8.plainBytes cs) = true) :
    readSource host.openText d (some defaultBlock) p = .ok cs := by
  have hdelivers : Text.Delivers (host.openText (Utf8.plainBytes cs)) defaultBlock (Text.unifyNewlines cs) :=
    Text.delivers_openText (Utf8.decodeFrom_plainBytes hcs 0 []) (by decide) (by decide) hroom
  rw [readSource_of_read h, hdelivers.readAll_eq]
  exact congrArg Except.ok (Text.unifyNewlinesFrom_plain hcs [])

/-- What is read from a source is its whole text. -/
theorem hasText_of_readSource (h : readSource host.openText d block p = .ok text)
    (hblock : block ≠ some 0) : HasText d p text := by
  unfold readSource at h
  split at h
  · cases h
  · next bytes hread =>
    rcases Text.readAll_cases hblock host.room bytes with
      ⟨cs, hdecode, hok⟩ | ⟨u, v, -, herror⟩ | ⟨e, -, herror⟩
    · rw [Host.openText, hok] at h
      cases h
      exact ⟨bytes, cs, hread, hdecode, rfl⟩
    · rw [Host.openText, herror] at h
      cases h
    · rw [Host.openText, herror] at h
      cases h

/-- If the file itself can be read, its bytes are no text or the size of the blocks is of no use. -/
theorem readSource_error {f : Failure} (hread : d.read p = .ok bytes)
    (h : readSource host.openText d block p = .error f) :
    (∃ u, f = .source (.undecodable u)) ∨ ∃ e, Text.Unusable host.room block bytes e ∧ f = .source e := by
  rw [readSource_of_read hread, Host.openText] at h
  by_cases hblock : block = some 0
  · rw [hblock, Text.readAll_zero] at h
    cases h
  · rcases Text.readAll_cases hblock host.room bytes with ⟨cs, -, hok⟩ | ⟨u, v, -, herror⟩ | ⟨e, he, herror⟩
    · rw [hok] at h
      cases h
    · rw [herror] at h
      cases h
      exact .inl ⟨v, rfl⟩
    · rw [herror] at h
      cases h
      exact .inr ⟨e, he, rfl⟩

end Source

/-! ## Encoded texts -/

/-- A file that holds the bytes of a text is read as this text with one kind of line end, through every
text layer whose reads give up to as many characters as asked for, all of them for a negative size, and none
only at the end. The size of the blocks does not matter, nor do the places where they end. The text layer of
the program is such a one, for each size that an index can hold and that there is memory for. -/
theorem readSource_encoded {d : Disk} {p : Path} {t : String} (hfile : d.read p = .ok (Utf8.encode t)) :
    (∀ (layer : List UInt8 → Text.Opened) (n : Int),
      Text.Delivers (layer (Utf8.encode t)) n (Text.withNewlines t.toList) →
        readSource layer d (some n) p = .ok (Text.withNewlines t.toList)) ∧
    ∀ (host : Host) (n : Int), n ≠ 0 → Text.IndexSized n → host.room n (Utf8.encode t) = true →
      Text.Delivers (host.openText (Utf8.encode t)) n (Text.withNewlines t.toList) := by
  constructor
  · intro layer n hdelivers
    rw [readSource_of_read hfile, hdelivers.readAll_eq]
    rfl
  · intro host n hn hsized hroom
    rw [← Text.unifyNewlines_eq]
    exact Text.delivers_openText (Utf8.decode_encode t) hn hsized hroom

def fileWith (t : String) : Disk := { entries := [(.ofNames ["source"], .file (Utf8.encode t))] }

/-- A line end and characters of several bytes lie across the ends of blocks. -/
theorem readSource_encoded_straddling :
    (fileWith "a\r\né😀\r\rb").read ⟨0, ["source"]⟩ = .ok (Utf8.encode "a\r\né😀\r\rb") ∧
    readSource Host.ample.openText (fileWith "a\r\né😀\r\rb") (some 2) ⟨0, ["source"]⟩ =
      .ok "a\né😀\n\nb".toList := by
  have hfile : (fileWith "a\r\né😀\r\rb").read ⟨0, ["source"]⟩ = .ok (Utf8.encode "a\r\né😀\r\rb") := rfl
  obtain ⟨hread, hdelivers⟩ := readSource_encoded hfile
  refine ⟨hfile, ?_⟩
  rw [hread _ 2 (hdelivers .ample 2 (by decide) (by decide) rfl)]
  decide

end Build

end HackVm
