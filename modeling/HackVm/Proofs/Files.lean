import HackVm.Storage.Disk

/-!
# The files of a disk

Making directories leaves every file as it is, and writing a file leaves all others as they are.

* `Disk.file?` : the content of the file at a location;
* `Disk.Frame d d' W` : the files outside of `W` are the same on both disks;
* `Disk.frame_makeDirectories`, `Disk.frame_write` : what making and writing leave alone;
* `Disk.write_again` : where a file has been written, one can be written again;
* `Disk.read_of_isFile` : what is told to be a file can be read.
-/

namespace HackVm.Disk

def file? (d : Disk) (l : Location) : Option (List UInt8) :=
  match d.at? l with
  | some (.file bytes) => some bytes
  | _ => none

/-- Outside of `W` there are the same files on both disks. -/
def Frame (d d' : Disk) (W : Location → Prop) : Prop := ∀ l, ¬ W l → d'.file? l = d.file? l

theorem Frame.refl (d : Disk) (W : Location → Prop) : Frame d d W := fun _ _ => rfl

theorem Frame.trans {d₁ d₂ d₃ : Disk} {W : Location → Prop} (h₁ : Frame d₁ d₂ W) (h₂ : Frame d₂ d₃ W) :
    Frame d₁ d₃ W := by
  intro l hl
  rw [h₂ l hl, h₁ l hl]

theorem Frame.mono {d d' : Disk} {W W' : Location → Prop} (h : Frame d d' W) (hW : ∀ l, W l → W' l) :
    Frame d d' W' :=
  fun l hl => h l (fun hw => hl (hW l hw))

/-! ## Putting entries -/

theorem at?_root (d : Disk) : d.at? .root = some .directory := if_pos rfl

theorem ne_root {d : Disk} {l : Location} (h : d.at? l ≠ some .directory) : l ≠ .root := by
  intro hroot
  rw [hroot] at h
  exact h d.at?_root

theorem file?_put {d : Disk} {l : Location} (h : l ≠ .root) (bytes : List UInt8) :
    (d.put l (.file bytes)).file? l = some bytes := by
  unfold file?
  rw [at?_put d h, if_pos rfl]

theorem frame_put {d : Disk} {l : Location} (h : l ≠ .root) (e : Entry) : Frame d (d.put l e) (· = l) := by
  intro k hk
  unfold file?
  rw [at?_put d h, if_neg hk]

/-- A directory takes no file's place. -/
theorem frame_put_directory {d : Disk} {l : Location} (h : d.at? l = none) :
    Frame d (d.put l .directory) fun _ => False := by
  have hroot : l ≠ .root := d.ne_root (by rw [h]; exact nofun)
  intro k _
  by_cases hk : k = l
  · unfold file?
    rw [at?_put d hroot, if_pos hk, hk, h]
  · exact frame_put hroot _ k hk

/-! ## Making directories -/

theorem frame_makeAt (d : Disk) (p : Path) (l : Location) : Frame d (d.makeAt p l).1 fun _ => False := by
  unfold makeAt
  split
  · exact .refl d _
  · exact .refl d _
  · next h => exact frame_put_directory h

theorem frame_makeIn (d : Disk) (p : Path) (l : Location) : Frame d (d.makeIn p l).1 fun _ => False := by
  unfold makeIn
  split
  · exact .refl d _
  · exact frame_makeAt d p _

theorem frame_makeDirectories (d : Disk) (count : Nat) (p : Path) :
    Frame d (d.makeDirectories count p).1 fun _ => False := by
  induction count generalizing p with
  | zero => exact .refl d _
  | succ count ih =>
    unfold makeDirectories
    split
    · exact frame_makeAt d p _
    · split
      · exact .refl d _
      · have hparent := ih p.parent
        split
        · next d' l hmade =>
          rw [hmade] at hparent
          exact hparent.trans (frame_makeIn d' p l)
        · next d' e hmade =>
          rw [hmade] at hparent
          exact hparent
    · exact .refl d _

/-! ## Writing and reading -/

theorem write_eq_ok {d d' : Disk} {p : Path} {bytes : List UInt8} :
    d.write p bytes = .ok d' ↔
      ∃ l, d.locate p = .ok l ∧ d.at? l ≠ some .directory ∧ d' = d.put l (.file bytes) := by
  unfold write
  cases hl : d.locate p with
  | error c => simp
  | ok l =>
    by_cases hdir : d.at? l = some .directory
    · simp [hdir]
    · have hput : d.put l (.file bytes) = d' ↔ d' = d.put l (.file bytes) := eq_comm
      simp [hdir, hput]

/-- Only the file that is written changes. -/
theorem frame_write {d d' : Disk} {p : Path} {bytes : List UInt8} (h : d.write p bytes = .ok d') :
    ∃ l, d.locate p = .ok l ∧ d'.file? l = some bytes ∧ Frame d d' (· = l) := by
  obtain ⟨l, hl, hdir, rfl⟩ := write_eq_ok.1 h
  exact ⟨l, hl, file?_put (d.ne_root hdir) bytes, frame_put (d.ne_root hdir) _⟩

/-- A walk goes through directories only, so a file in no directory's place is not on the way. -/
theorem walk_put {d : Disk} {l : Location} (h : d.at? l ≠ some .directory) (bytes : List UInt8)
    {parts : List String} {m k : Location} (hwalk : d.walk m parts = .ok k) :
    (d.put l (.file bytes)).walk m parts = .ok k := by
  induction parts generalizing m with
  | nil => exact hwalk
  | cons part parts ih =>
    unfold walk at hwalk ⊢
    cases hm : d.at? m with
    | none =>
      rw [hm] at hwalk
      cases hwalk
    | some entry =>
      cases entry with
      | file bytes =>
        rw [hm] at hwalk
        cases hwalk
      | directory =>
        have hne : m ≠ l := by
          intro heq
          rw [heq] at hm
          exact h hm
        rw [hm] at hwalk
        rw [at?_put d (d.ne_root h), if_neg hne, hm]
        simp only at hwalk ⊢
        split
        · next hlong =>
          rw [if_pos hlong] at hwalk
          cases hwalk
        · next hlong =>
          rw [if_neg hlong] at hwalk
          exact ih hwalk

theorem locate_put {d : Disk} {p : Path} {l : Location} (h : d.at? l ≠ some .directory)
    (bytes : List UInt8) (hl : d.locate p = .ok l) : (d.put l (.file bytes)).locate p = .ok l := by
  unfold locate at hl ⊢
  split at hl
  · cases hl
  · next hnull =>
    rw [if_neg hnull]
    split at hl
    · cases hl
    · next hlong =>
      rw [if_neg hlong]
      exact walk_put h bytes hl

/-- What has been written can be written over, and that changes no other file either. -/
theorem write_again {d d' : Disk} {p : Path} {bytes : List UInt8} (h : d.write p bytes = .ok d')
    (more : List UInt8) :
    ∃ d'', d'.write p more = .ok d'' ∧
      ∃ l, d.locate p = .ok l ∧ d''.file? l = some more ∧ Frame d d'' (· = l) := by
  obtain ⟨l, hl, hdir, rfl⟩ := write_eq_ok.1 h
  have hfile : (d.put l (.file bytes)).at? l ≠ some .directory := by
    rw [at?_put d (d.ne_root hdir), if_pos rfl]
    exact nofun
  refine ⟨_, write_eq_ok.2 ⟨l, locate_put hdir bytes hl, hfile, rfl⟩, l, hl, ?_, ?_⟩
  · exact file?_put (d.ne_root hdir) more
  · exact (frame_put (d.ne_root hdir) _).trans (frame_put (d.ne_root hdir) _)

theorem read_of_entry? {d : Disk} {p : Path} {e : Entry} (h : d.entry? p = .ok (some e))
    (he : e ≠ .directory) : ∃ bytes, d.read p = .ok bytes := by
  unfold entry? at h
  unfold read
  split at h
  · next l hl =>
    rw [hl]
    cases e with
    | directory => exact absurd rfl he
    | file bytes =>
      refine ⟨bytes, ?_⟩
      simp only [Except.ok.inj h]
  · cases h
  · cases h

theorem read_of_isFile {d : Disk} {p : Path} (h : d.isFile p = .ok true) : ∃ bytes, d.read p = .ok bytes := by
  unfold isFile at h
  cases hentry : d.entry? p with
  | error e =>
    rw [hentry] at h
    cases h
  | ok entry =>
    rw [hentry] at h
    cases entry with
    | none => cases h
    | some e =>
      refine read_of_entry? hentry fun hdir => ?_
      rw [hdir] at h
      cases h

end HackVm.Disk
