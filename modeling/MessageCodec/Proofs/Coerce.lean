import MessageCodec.Proofs.Base64
import MessageCodec.Proofs.Outcome
import MessageCodec.Proofs.Varint
import MessageCodec.Value.Coerce
import MessageCodec.Wire.Fixed

/-!
# What coercions yield

Every value that is read as a number gives the numeral of an integer, so that whatever a caller hands
over, a number in the range of its type goes on the wire. A number in range is left as it is.
-/

namespace MessageCodec

def IsInt32 (n : Int) : Prop := -0x80000000 ≤ n ∧ n < 0x80000000

def IsUInt32 (n : Int) : Prop := 0 ≤ n ∧ n < 0x100000000

def IsInt64 (n : Int) : Prop := -0x8000000000000000 ≤ n ∧ n < 0x8000000000000000

theorem IntegerText.write?_eq (n : Int) :
    write? n = if digitLimit < (Numeral.ofNat n.natAbs).length then none else some (Numeral.ofInt n) := by
  rw [write?, Numeral.ofInt]
  by_cases hn : n < 0
  · simp only [if_pos hn]
  · simp only [if_neg hn, show n.natAbs = n.toNat by omega]

theorem IntegerText.write?_some {n : Int} {a : Numeral} (h : write? n = some a) : a = Numeral.ofInt n := by
  rw [write?_eq] at h
  split at h
  · simp at h
  · exact (Option.some.inj h).symm

theorem IntegerText.length_ofNat_le {n : Nat} (h : n < 0x10000000000000000) :
    (Numeral.ofNat n).length ≤ digitLimit :=
  le_trans (Numeral.ofNat_length_le_of_lt (k := 20) (by decide) (lt_trans h (by decide))) (by decide)

/-- Integers of at most 64 bits have a text. -/
theorem IntegerText.write?_of_lt {n : Int} (h : n.natAbs < 0x10000000000000000) :
    write? n = some (Numeral.ofInt n) := by
  rw [write?_eq, if_neg (by have := length_ofNat_le h; omega)]

namespace Numeral

/-- A run of digits with or without a sign in front, and the integer it spells. -/
inductive Spelled : List Char → Int → Prop
  | plain {digits : Numeral} (h : Digits digits) (hne : digits ≠ []) : Spelled digits (val digits)
  | plus {digits : Numeral} (h : Digits digits) (hne : digits ≠ []) : Spelled ('+' :: digits) (val digits)
  | minus {digits : Numeral} (h : Digits digits) (hne : digits ≠ []) : Spelled ('-' :: digits) (-(val digits : Int))

theorem Spelled.exists_signed? {cs : List Char} {n : Int} (h : Spelled cs n) :
    ∃ negative digits, signed? cs = some (negative, digits) ∧ signedVal negative digits = n := by
  cases h with
  | plain h hne => exact ⟨false, cs, signed?_of_digits h hne, rfl⟩
  | @plus digits h hne =>
    have hall : digits.all isDigit = true := List.all_eq_true.2 h
    exact ⟨false, digits, by simp [signed?, hne, hall], rfl⟩
  | @minus digits h hne =>
    have hall : digits.all isDigit = true := List.all_eq_true.2 h
    exact ⟨true, digits, by simp [signed?, hne, hall], rfl⟩

theorem Spelled.ne_nil {cs : List Char} {n : Int} (h : Spelled cs n) : cs ≠ [] := by
  cases h with
  | plain _ hne => exact hne
  | plus => simp
  | minus => simp

end Numeral

/-- An integer as a caller hands it over: as it is, if it has few enough digits to have a text, or as a text of
any length that spells it, with blanks around. -/
inductive Value.Spells : Value → Int → Prop
  | int {n : Int} (h : (Numeral.ofNat n.natAbs).length ≤ IntegerText.digitLimit) : Spells (.int n) n
  | text {s : String} {before cs after : List Char} {n : Int} (hs : s.toList = before ++ (cs ++ after))
      (hbefore : ∀ c ∈ before, Text.isBlank c = true) (hafter : ∀ c ∈ after, Text.isBlank c = true)
      (hcs : Numeral.Spelled cs n) : Spells (.text s) n

namespace Value

open Numeral

/-! ### Numerals -/

/-- A text of digits is read as the integer it spells. -/
theorem numeralOfText_of_signed? {cs : List Char} {negative : Bool} {digits : Numeral}
    (h : signed? (Text.trim cs) = some (negative, digits)) :
    numeralOfText cs = ofInt (signedVal negative digits) := by
  obtain ⟨hdigits, _⟩ := signed?_digits h
  rw [numeralOfText, h]
  dsimp only
  rw [trim_eq_ofNat hdigits, signedVal]
  cases negative with
  | false => exact (ofInt_natCast _).symm
  | true =>
    rw [Bool.true_and, if_pos rfl]
    split
    · rename_i hne
      have hpos : val digits ≠ 0 := fun hzero => bne_iff_ne.1 hne (ofNat_eq_zero_iff.2 hzero)
      rw [ofInt_neg (by omega), Int.natAbs_neg, Int.natAbs_natCast]
    · rename_i hzero
      rw [bne_iff_ne, not_not, ofNat_eq_zero_iff] at hzero
      rw [hzero]
      exact (ofInt_natCast 0).symm

theorem numeralOfText_ofInt (n : Int) : numeralOfText (ofInt n) = ofInt n := by
  rw [numeralOfText_of_signed? (by rw [textTrim_ofInt, signed?_ofInt]), signedVal_ofInt]

theorem exists_numeralOfFloat (x : Binary64) : ∃ n, numeralOfFloat x = ofInt n := by
  rw [numeralOfFloat]
  split
  · exact ⟨_, rfl⟩
  · exact ⟨0, (ofInt_eq_zero_iff.2 rfl).symm⟩

private theorem exists_numeralOfText (cs : List Char) : ∃ n, numeralOfText cs = ofInt n := by
  cases hsigned : signed? (Text.trim cs) with
  | some found => exact ⟨_, numeralOfText_of_signed? hsigned⟩
  | none =>
    rw [numeralOfText, hsigned]
    dsimp only
    split
    · exact exists_numeralOfFloat _
    · exact ⟨0, (ofInt_eq_zero_iff.2 rfl).symm⟩

/-- A value as a signed numeral is always the numeral of an integer. -/
theorem exists_of_toSignedNumeral {v : Value} {a : Numeral} (h : v.toSignedNumeral = .ok a) :
    ∃ n, a = ofInt n := by
  have hzero : ∃ n, (['0'] : Numeral) = ofInt n := ⟨0, (ofInt_eq_zero_iff.2 rfl).symm⟩
  unfold toSignedNumeral at h
  split at h
  · obtain rfl := Except.ok.inj h
    split
    · exact ⟨1, by rw [show ((1 : Int)) = ((1 : Nat) : Int) from rfl, ofInt_natCast, ofNat_of_lt (by decide)]; rfl⟩
    · exact hzero
  · split at h
    · rename_i hwrite
      exact ⟨_, Except.ok.inj h ▸ IntegerText.write?_some hwrite⟩
    · simp at h
  · exact Except.ok.inj h ▸ exists_numeralOfFloat _
  · exact Except.ok.inj h ▸ exists_numeralOfText _
  · exact Except.ok.inj h ▸ exists_numeralOfText _
  · rename_i d
    obtain rfl := Except.ok.inj h
    cases hd : d.truncate?.bind IntegerText.write? with
    | none => exact hzero
    | some b =>
      obtain ⟨n, _, hwrite⟩ := Option.bind_eq_some_iff.1 hd
      exact ⟨n, IntegerText.write?_some hwrite⟩
  · exact Except.ok.inj h ▸ hzero

theorem toSignedNumeral_int {n : Int} (h : n.natAbs < 0x10000000000000000) :
    (int n).toSignedNumeral = .ok (ofInt n) := by
  rw [toSignedNumeral, IntegerText.write?_of_lt h]

theorem toSignedNumeral_text (n : Int) : (text (String.ofList (ofInt n))).toSignedNumeral = .ok (ofInt n) := by
  rw [toSignedNumeral, String.toList_ofList, numeralOfText_ofInt]

theorem Spells.toSignedNumeral {v : Value} {n : Int} (h : v.Spells n) : v.toSignedNumeral = .ok (ofInt n) := by
  cases h with
  | int h => rw [Value.toSignedNumeral, IntegerText.write?_eq, if_neg (by omega)]
  | @text s before cs after _ hs hbefore hafter hcs =>
    obtain ⟨negative, digits, hsigned, rfl⟩ := hcs.exists_signed?
    have htrim : Text.trim s.toList = cs := by
      rw [hs, trim_padded hbefore hafter (no_blank_of_signed? hsigned) hcs.ne_nil]
    rw [Value.toSignedNumeral, numeralOfText_of_signed? (by rw [htrim]; exact hsigned)]

theorem toUnsignedNumeral_of_signed {v : Value} {n : Int} (h : v.toSignedNumeral = .ok (ofInt n)) :
    v.toUnsignedNumeral = .ok (ofNat (Word.unsigned64 n)) := by
  rw [toUnsignedNumeral, h, ← toUnsigned64_ofInt]
  rfl

theorem toZigzag64_of_signed {v : Value} {n : Int} (h : v.toSignedNumeral = .ok (ofInt n)) :
    v.toZigzag64 = .ok (ofNat (Word.zigzag64 n)) := by
  rw [toZigzag64, h, ← encodeZigzag64_ofInt]
  rfl

theorem exists_of_toUnsignedNumeral {v : Value} {a : Numeral} (h : v.toUnsignedNumeral = .ok a) :
    ∃ u, u < 0x10000000000000000 ∧ a = ofNat u := by
  obtain ⟨b, hb, heq⟩ := bind_eq_ok.1 h
  obtain ⟨n, rfl⟩ := exists_of_toSignedNumeral hb
  obtain rfl := Except.ok.inj heq
  exact ⟨_, Word.unsigned64_lt n, toUnsigned64_ofInt n⟩

theorem exists_of_toZigzag64 {v : Value} {a : Numeral} (h : v.toZigzag64 = .ok a) :
    ∃ u, u < 0x10000000000000000 ∧ a = ofNat u := by
  obtain ⟨b, hb, heq⟩ := bind_eq_ok.1 h
  obtain ⟨n, rfl⟩ := exists_of_toSignedNumeral hb
  obtain rfl := Except.ok.inj heq
  exact ⟨_, Word.zigzag64_lt n, encodeZigzag64_ofInt n⟩

/-- The numeral of a word is the word's numeral. -/
theorem toUnsignedNumeral_ofNat {u : Nat} (h : u < 0x10000000000000000) :
    (text (String.ofList (ofNat u))).toUnsignedNumeral = .ok (ofNat u) := by
  rw [toUnsignedNumeral_of_signed (n := u) (by rw [← ofInt_natCast]; exact toSignedNumeral_text u),
    Word.unsigned64_of_lt h]

/-! ### 32-bit integers -/

/-- An integer is read back from its canonical text within the digit limit. -/
theorem toInteger_of_signed {v : Value} {n : Int} (h : v.toSignedNumeral = .ok (ofInt n)) :
    v.toInteger = if IntegerText.digitLimit < (ofNat n.natAbs).length
      then .error (.numeralTooLong (ofNat n.natAbs).length) else .ok n := by
  rw [toInteger, h, ok_bind, integerOfText, textTrim_ofInt, signed?_ofInt]
  dsimp only
  rw [integerOfDigits, signedVal_ofInt]

theorem toInteger_int {n : Int} (h : n.natAbs < 0x10000000000000000) : (int n).toInteger = .ok n := by
  have hlen := IntegerText.length_ofNat_le h
  rw [toInteger_of_signed (toSignedNumeral_int h), if_neg (by omega)]

theorem isInt32_of_toInt32 {v : Value} {n : Int} (h : v.toInt32 = .ok n) : IsInt32 n := by
  obtain ⟨m, _, heq⟩ := bind_eq_ok.1 h
  obtain rfl := Except.ok.inj heq
  split
  · rename_i hfits
    simp only [fits32, Bool.and_eq_true, decide_eq_true_eq] at hfits
    exact Word.toSigned32_mem hfits.1 hfits.2
  · exact ⟨by decide, by decide⟩

theorem isUInt32_of_toUInt32 {v : Value} {n : Int} (h : v.toUInt32 = .ok n) : IsUInt32 n := by
  obtain ⟨m, _, heq⟩ := bind_eq_ok.1 h
  obtain rfl := Except.ok.inj heq
  split
  · rename_i hfits
    simp only [fits32, Bool.and_eq_true, decide_eq_true_eq] at hfits
    exact Word.toUnsigned32_mem hfits.1 hfits.2
  · exact ⟨by decide, by decide⟩

theorem toInt32_int {n : Int} (h : IsInt32 n) : (int n).toInt32 = .ok n := by
  obtain ⟨hlow, hhigh⟩ := h
  have hfits : fits32 n = true := by
    simp only [fits32, Bool.and_eq_true, decide_eq_true_eq]
    omega
  rw [toInt32, toInteger_int (by omega)]
  show Except.ok (if fits32 n then Word.toSigned32 n else 0) = .ok n
  rw [if_pos hfits, Word.toSigned32_of_mem hlow hhigh]

theorem toUInt32_int {n : Int} (h : IsUInt32 n) : (int n).toUInt32 = .ok n := by
  obtain ⟨hlow, hhigh⟩ := h
  have hfits : fits32 n = true := by
    simp only [fits32, Bool.and_eq_true, decide_eq_true_eq]
    omega
  rw [toUInt32, toInteger_int (by omega)]
  show Except.ok (if fits32 n then Word.toUnsigned32 n else 0) = .ok n
  rw [if_pos hfits, Word.toUnsigned32, if_neg (by omega)]

end Value

end MessageCodec
