import HackVm.Text.Utf8
import Mathlib.Tactic.IntervalCases

/-!
# Texts are read back from their bytes

A character is a byte by itself, or a lead byte and the continuation bytes that it announces. Of the
continuation bytes each brings six bits, and only the first may be confined to a narrower range, which
leaves out overlong forms, surrogates and what is beyond the last character.

* `Utf8.encode_eq` : the bytes of a text are those of its characters;
* `Utf8.Unfinished.Takes` : which continuation byte may come next;
* `Utf8.decodeFrom_tails` : the bytes that are owed complete a character;
* `Utf8.utf8EncodeChar_eq_tails` : what a lead byte announces is what the character's bytes bring;
* `Utf8.decode_encode` : every text is read back.
-/

namespace HackVm.Utf8

/-! ## Bytes of a text -/

theorem toList_loop_eq (bytes : ByteArray) (i : Nat) (done : List UInt8) :
    ByteArray.toList.loop bytes i done = done.reverse ++ bytes.data.toList.drop i := by
  fun_induction ByteArray.toList.loop bytes i done with
  | case1 i done h ih =>
    have hi : i < bytes.data.toList.length := by
      rw [Array.length_toList]
      exact h
    rw [ih, List.drop_eq_getElem_cons hi, List.reverse_cons, List.append_assoc, ByteArray.get!,
      getElem!_pos bytes.data i h]
    rfl
  | case2 i done h =>
    have hi : bytes.data.toList.length ≤ i := by
      rw [Array.length_toList]
      exact Nat.not_lt.1 h
    rw [List.drop_eq_nil_of_le hi, List.append_nil]

theorem encode_eq (t : String) : encode t = t.toList.flatMap String.utf8EncodeChar := by
  have htext : t.toUTF8 = (t.toList.flatMap String.utf8EncodeChar).toByteArray := by
    show t.toByteArray = t.toList.utf8Encode
    rw [← String.toByteArray_ofList, String.ofList_toList]
  rw [encode, htext, ByteArray.toList, toList_loop_eq, List.toList_data_toByteArray]
  rfl

theorem toNat_ofNat_byte {n : Nat} (h : n < 256) : (UInt8.ofNat n).toNat = n := by
  rw [UInt8.toNat_ofNat', Nat.mod_eq_of_lt h]

/-! ## Characters -/

def tailByte (bits : Nat) : UInt8 := UInt8.ofNat (bits + 128)

theorem toNat_tailByte {bits : Nat} (h : bits < 64) : (tailByte bits).toNat = bits + 128 :=
  toNat_ofNat_byte (by omega)

/-- The next byte may be the continuation byte with these bits. -/
def Unfinished.Takes (u : Unfinished) (bits : Nat) : Prop :=
  u.low.toNat ≤ bits + 128 ∧ bits + 128 ≤ u.high.toNat

theorem Unfinished.takes_of_range {u : Unfinished} (hlow : u.low = 0x80) (hhigh : u.high = 0xbf)
    {bits : Nat} (h : bits < 64) : u.Takes bits := by
  rw [Takes, hlow, hhigh]
  simp
  omega

/-- Only the first continuation byte may be confined. -/
theorem Unfinished.extend_takes (u : Unfinished) (b : UInt8) {bits : Nat} (h : bits < 64) :
    (u.extend b).Takes bits := takes_of_range rfl rfl h

theorem Unfinished.code_extend (u : Unfinished) {bits : Nat} (h : bits < 64) :
    (u.extend (tailByte bits)).code = u.code * 64 + bits := by
  show u.code * 64 + (tailByte bits).toNat % 64 = _
  rw [toNat_tailByte h]
  omega

theorem decodeFrom_tailByte {u : Unfinished} {bits : Nat} (h : bits < 64) (htakes : u.Takes bits)
    (offset : Nat) (done : List Char) (bs : List UInt8) :
    decodeFrom offset done (some u) (tailByte bits :: bs) =
      if u.owed - 1 = 0 then decodeFrom (offset + 1) (Char.ofNat (u.code * 64 + bits) :: done) none bs
      else decodeFrom (offset + 1) done (some (u.extend (tailByte bits))) bs := by
  have hrange : u.low ≤ tailByte bits ∧ tailByte bits ≤ u.high := by
    rw [UInt8.le_iff_toNat_le, UInt8.le_iff_toNat_le, toNat_tailByte h]
    exact htakes
  rw [decodeFrom, if_pos hrange, ← u.code_extend h]
  rfl

/-- The continuation bytes that are owed complete the character. -/
theorem decodeFrom_tails {u : Unfinished} {bits : Nat} {more : List Nat} (howed : u.owed = more.length + 1)
    (htakes : u.Takes bits) (hbits : ∀ m ∈ bits :: more, m < 64) (offset : Nat) (done : List Char)
    (bs : List UInt8) :
    decodeFrom offset done (some u) ((bits :: more).map tailByte ++ bs) =
      decodeFrom (offset + (more.length + 1))
        (Char.ofNat ((bits :: more).foldl (fun code m => code * 64 + m) u.code) :: done) none bs := by
  induction more generalizing u bits offset with
  | nil =>
    have hfirst : bits < 64 := hbits bits List.mem_cons_self
    show decodeFrom offset done (some u) (tailByte bits :: bs) = _
    rw [decodeFrom_tailByte hfirst htakes, howed]
    rfl
  | cons next more ih =>
    obtain ⟨hfirst, hmore⟩ := List.forall_mem_cons.1 hbits
    have hnext : next < 64 := hmore next List.mem_cons_self
    have howed' : (u.extend (tailByte bits)).owed = more.length + 1 := by
      show u.owed - 1 = _
      rw [howed]
      rfl
    show decodeFrom offset done (some u) (tailByte bits :: ((next :: more).map tailByte ++ bs)) = _
    rw [decodeFrom_tailByte hfirst htakes, howed, if_neg (by simp),
      ih howed' (u.extend_takes _ hnext) hmore, u.code_extend hfirst]
    congr 1
    simp only [List.length_cons]
    omega

/-! ## Lead bytes -/

/-- Two bytes give a character that needs them. -/
theorem ofLead?_two {n : Nat} (hlow : 2 ≤ n) (hhigh : n < 32) :
    ∃ u, Unfinished.ofLead? (UInt8.ofNat (n + 192)) = some u ∧ u.code = n ∧ u.owed = 1 ∧
      ∀ bits < 64, u.Takes bits := by
  have hbyte := toNat_ofNat_byte (n := n + 192) (by omega)
  refine ⟨⟨UInt8.ofNat (n + 192), 0, (UInt8.ofNat (n + 192)).toNat - 0xc0, 1, 0x80, 0xbf⟩, ?_, ?_, rfl, ?_⟩
  · rw [Unfinished.ofLead?, if_pos]
    rw [UInt8.le_iff_toNat_le, UInt8.le_iff_toNat_le, hbyte]
    simp
    omega
  · simp only [hbyte]
    omega
  · exact fun bits h => Unfinished.takes_of_range rfl rfl h

/-- Three bytes give a character that needs them and is no surrogate. -/
theorem ofLead?_three {n : Nat} (h : n < 16) :
    ∃ u, Unfinished.ofLead? (UInt8.ofNat (n + 224)) = some u ∧ u.code = n ∧ u.owed = 2 ∧
      ∀ bits < 64, (n = 0 → 32 ≤ bits) → (n = 13 → bits < 32) → u.Takes bits := by
  interval_cases n <;>
    refine ⟨_, rfl, rfl, rfl, fun bits hbits hlow hhigh => ?_⟩ <;>
    simp [Unfinished.Takes] at * <;> omega

/-- Four bytes give a character that needs them and is not beyond the last one. -/
theorem ofLead?_four {n : Nat} (h : n < 5) :
    ∃ u, Unfinished.ofLead? (UInt8.ofNat (n + 240)) = some u ∧ u.code = n ∧ u.owed = 3 ∧
      ∀ bits < 64, (n = 0 → 16 ≤ bits) → (n = 4 → bits < 16) → u.Takes bits := by
  interval_cases n <;>
    refine ⟨_, rfl, rfl, rfl, fun bits hbits hlow hhigh => ?_⟩ <;>
    simp [Unfinished.Takes] at * <;> omega

theorem decodeFrom_lead {n : Nat} {u : Unfinished} (hlow : 128 ≤ n) (hhigh : n < 256)
    (hu : Unfinished.ofLead? (UInt8.ofNat n) = some u) (offset : Nat) (done : List Char) (bs : List UInt8) :
    decodeFrom offset done none (UInt8.ofNat n :: bs) = decodeFrom (offset + 1) done (some u) bs := by
  have hnot : ¬ UInt8.ofNat n < 0x80 := by
    rw [UInt8.lt_iff_toNat_lt, toNat_ofNat_byte hhigh]
    simp
    omega
  rw [decodeFrom, if_neg hnot, hu]

/-- The bytes of a character beyond the first 128 are a lead byte and the continuation bytes that it
announces. -/
theorem utf8EncodeChar_eq_tails {c : Char} (h : 128 ≤ c.toNat) :
    ∃ lead u bits more, 128 ≤ lead ∧ lead < 256 ∧
      String.utf8EncodeChar c = UInt8.ofNat lead :: (bits :: more).map tailByte ∧
      Unfinished.ofLead? (UInt8.ofNat lead) = some u ∧ u.owed = more.length + 1 ∧ u.Takes bits ∧
      (∀ m ∈ bits :: more, m < 64) ∧
      (bits :: more).foldl (fun code m => code * 64 + m) u.code = c.toNat := by
  have hvalid : c.toNat < 0xd800 ∨ 0xdfff < c.toNat ∧ c.toNat < 0x110000 := c.valid
  have hval : c.val.toNat = c.toNat := rfl
  unfold String.utf8EncodeChar
  simp only [hval]
  rw [if_neg (by omega)]
  by_cases htwo : c.toNat ≤ 2047
  · obtain ⟨u, hu, hcode, howed, htakes⟩ := ofLead?_two (n := c.toNat / 64 % 32) (by omega) (by omega)
    refine ⟨c.toNat / 64 % 32 + 192, u, c.toNat % 64, [], by omega, by omega, ?_, hu, howed,
      htakes _ (by omega), by simp; omega, ?_⟩
    · rw [if_pos htwo]
      rfl
    · simp only [List.foldl_cons, List.foldl_nil, hcode]
      omega
  · rw [if_neg htwo]
    by_cases hthree : c.toNat ≤ 65535
    · obtain ⟨u, hu, hcode, howed, htakes⟩ := ofLead?_three (n := c.toNat / 4096 % 16) (by omega)
      refine ⟨c.toNat / 4096 % 16 + 224, u, c.toNat / 64 % 64, [c.toNat % 64], by omega, by omega, ?_, hu,
        howed, htakes _ (by omega) (by omega) (by omega), by simp; omega, ?_⟩
      · rw [if_pos hthree]
        rfl
      · simp only [List.foldl_cons, List.foldl_nil, hcode]
        omega
    · obtain ⟨u, hu, hcode, howed, htakes⟩ := ofLead?_four (n := c.toNat / 262144 % 8) (by omega)
      refine ⟨c.toNat / 262144 % 8 + 240, u, c.toNat / 4096 % 64, [c.toNat / 64 % 64, c.toNat % 64],
        by omega, by omega, ?_, hu, howed, htakes _ (by omega) (by omega) (by omega), by simp; omega, ?_⟩
      · rw [if_neg hthree]
        rfl
      · simp only [List.foldl_cons, List.foldl_nil, hcode]
        omega

theorem decodeFrom_utf8EncodeChar (c : Char) (offset : Nat) (done : List Char) (bs : List UInt8) :
    decodeFrom offset done none (String.utf8EncodeChar c ++ bs) =
      decodeFrom (offset + (String.utf8EncodeChar c).length) (c :: done) none bs := by
  by_cases h : c.toNat < 128
  · have hbytes : String.utf8EncodeChar c = [UInt8.ofNat c.toNat] := if_pos (Nat.le_of_lt_succ h)
    have hbyte := toNat_ofNat_byte (n := c.toNat) (by omega)
    have hlow : UInt8.ofNat c.toNat < 0x80 := by
      rw [UInt8.lt_iff_toNat_lt, hbyte]
      exact h
    rw [hbytes, List.singleton_append, decodeFrom, if_pos hlow, hbyte, Char.ofNat_toNat]
    rfl
  · obtain ⟨lead, u, bits, more, hlow, hhigh, hbytes, hu, howed, htakes, hbits, hcode⟩ :=
      utf8EncodeChar_eq_tails (Nat.le_of_not_lt h)
    rw [hbytes, List.cons_append, decodeFrom_lead hlow hhigh hu, decodeFrom_tails howed htakes hbits, hcode,
      Char.ofNat_toNat]
    congr 1
    simp only [List.length_cons, List.length_map]
    omega

theorem decodeFrom_encoded (cs : List Char) (offset : Nat) (done : List Char) :
    decodeFrom offset done none (cs.flatMap String.utf8EncodeChar) = .ok (done.reverse ++ cs) := by
  induction cs generalizing offset done with
  | nil => exact congrArg Except.ok (List.append_nil _).symm
  | cons c cs ih =>
    rw [List.flatMap_cons, decodeFrom_utf8EncodeChar, ih, List.reverse_cons, List.append_assoc]
    rfl

/-- Every text is read back from its bytes. -/
theorem decode_encode (t : String) : decode (encode t) = .ok t.toList := by
  rw [encode_eq]
  exact decodeFrom_encoded t.toList 0 []

end HackVm.Utf8
