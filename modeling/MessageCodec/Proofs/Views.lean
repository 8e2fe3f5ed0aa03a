import Mathlib.Data.Set.Function
import MessageCodec.Proofs.Coerce

/-!
# Views of a word as bijections

The signed numbers of 64 bits have an unsigned view and a ZigZag form. On texts both are bijections onto the
unsigned numbers of 64 bits, and reading a view back is the inverse. A number that has no view counts as zero,
and no view writes a zero with a sign. A 32-bit view reduces a text of any length instead, and agrees with the
64-bit one on what it keeps.
-/

namespace MessageCodec

namespace Numeral

def signedTexts : Set Numeral := ofInt '' {n | IsInt64 n}

def unsignedTexts : Set Numeral := ofNat '' {u | u < 0x10000000000000000}

/-- A map of texts that takes the signed 64-bit numbers one to one to the unsigned ones, and its inverse. -/
structure InverseViews (view back : Numeral → Numeral) : Prop where
  bijOn : Set.BijOn view signedTexts unsignedTexts
  invOn : Set.InvOn back view signedTexts unsignedTexts

/-- Maps of texts are inverse to each other as the maps of numbers that they carry out are. -/
theorem InverseViews.of_numbers {view back : Numeral → Numeral} {f : Int → Nat} {g : Nat → Int}
    (hview : ∀ n, view (ofInt n) = ofNat (f n)) (hf : ∀ n, f n < 0x10000000000000000)
    (hback : ∀ u, u < 0x10000000000000000 → back (ofNat u) = ofInt (g u))
    (hg : ∀ u, u < 0x10000000000000000 → IsInt64 (g u)) (hleft : ∀ n, IsInt64 n → g (f n) = n)
    (hright : ∀ u, u < 0x10000000000000000 → f (g u) = u) : InverseViews view back := by
  have hinv : Set.InvOn back view signedTexts unsignedTexts := by
    constructor
    · intro a ha
      obtain ⟨n, hn, rfl⟩ := ha
      rw [hview, hback _ (hf n), hleft n hn]
    · intro a ha
      obtain ⟨u, hu, rfl⟩ := ha
      rw [hback u hu, hview, hright u hu]
  refine ⟨hinv.bijOn ?_ ?_, hinv⟩
  · intro a ha
    obtain ⟨n, -, rfl⟩ := ha
    exact ⟨f n, hf n, (hview n).symm⟩
  · intro a ha
    obtain ⟨u, hu, rfl⟩ := ha
    exact ⟨g u, hg u hu, (hback u hu).symm⟩

theorem inverseViews_unsigned : InverseViews toUnsigned64 toSigned64 :=
  .of_numbers toUnsigned64_ofInt Word.unsigned64_lt (fun _ => toSigned64_ofNat) (fun _ => Word.signed64_mem)
    (fun _ hn => Word.signed64_unsigned64 hn.1 hn.2) (fun _ => Word.unsigned64_signed64)

theorem inverseViews_zigzag : InverseViews encodeZigzag64 decodeZigzag64 :=
  .of_numbers encodeZigzag64_ofInt Word.zigzag64_lt (fun u _ => decodeZigzag64_ofNat u) (fun _ => Word.unzigzag_mem)
    (fun _ hn => Word.unzigzag_zigzag64 hn.1 hn.2) (fun _ => Word.zigzag64_unzigzag)

/-! ### Zero has no sign -/

theorem ofInt_ne_minus_zero (n : Int) : ofInt n ≠ ['-', '0'] := by
  by_cases h : n < 0
  · rw [ofInt_neg h]
    intro heq
    have hzero := ofNat_eq_zero_iff.1 (List.cons.inj heq).2
    omega
  · rw [ofInt_nonneg (by omega)]
    exact ofNat_ne_minus _ _

/-- The signed view puts a sign in front of no zero of its own. -/
theorem toSigned64_ne_minus_zero {a : Numeral} (h : trim a ≠ ['-', '0']) : toSigned64 a ≠ ['-', '0'] := by
  unfold toSigned64
  dsimp only
  split
  · split
    · decide
    · rename_i hmagnitude
      intro heq
      exact hmagnitude (List.cons.inj heq).2
  · exact h

/-! ### Every digit has a character -/

theorem hasUnsigned64_ofInt (n : Int) : hasUnsigned64 (ofInt n) = true := by
  by_cases h : n < 0
  · rw [ofInt_neg h, hasUnsigned64, trim_ofNat, uint64Modulus_eq,
      hasDifference_of_digits (digits_ofNat _) (digits_ofNat _), Bool.or_true]
  · rw [ofInt_nonneg (by omega)]
    unfold hasUnsigned64
    split
    · exact absurd ‹_› (ofNat_ne_minus _ _)
    · rfl

theorem hasSigned64_ofNat (u : Nat) : hasSigned64 (ofNat u) = true := by
  rw [hasSigned64, trim_ofNat, uint64Modulus_eq, hasDifference_of_digits (digits_ofNat _) (digits_ofNat _),
    Bool.or_true]

theorem unsigned64View_ofInt (n : Int) : unsigned64View (ofInt n) = .ok (ofNat (Word.unsigned64 n)) := by
  rw [unsigned64View, if_pos (hasUnsigned64_ofInt n), toUnsigned64_ofInt]

theorem signed64View_ofNat {u : Nat} (hu : u < 0x10000000000000000) :
    signed64View (ofNat u) = .ok (ofInt (Word.signed64 u)) := by
  rw [signed64View, if_pos (hasSigned64_ofNat u), toSigned64_ofNat hu]

/-- The unsigned view and the ZigZag form of signed 64-bit numbers are bijections of texts, with the signed view
and the reading of a ZigZag form as inverses. The ZigZag form doubles a number, and a negative one gives the odd
number below its double. What has no view counts as zero, and no view of any number is a zero with a sign. -/
theorem views_inverse :
    InverseViews toUnsigned64 toSigned64 ∧ InverseViews encodeZigzag64 decodeZigzag64 ∧
      (∀ n : Int, IsInt64 n → encodeZigzag64 (ofInt n) = ofInt (if 0 ≤ n then 2 * n else -2 * n - 1)) ∧
      (∀ n : Int, ¬ (-0x8000000000000000 ≤ n ∧ n < 0x10000000000000000) → toUnsigned64 (ofInt n) = ['0']) ∧
      (∀ n : Int, ¬ IsInt64 n → encodeZigzag64 (ofInt n) = ['0']) ∧
      (∀ n : Int, hasUnsigned64 (ofInt n) = true ∧
        (Value.text (String.ofList (ofInt n))).toZigzag64 = .ok (encodeZigzag64 (ofInt n)) ∧
        toUnsigned64 (ofInt n) ≠ ['-', '0'] ∧ encodeZigzag64 (ofInt n) ≠ ['-', '0']) ∧
      ∀ u : Nat, hasSigned64 (ofNat u) = true ∧
        toSigned64 (ofNat u) ≠ ['-', '0'] ∧ decodeZigzag64 (ofNat u) ≠ ['-', '0'] := by
  refine ⟨inverseViews_unsigned, inverseViews_zigzag, fun n hn => ?_, fun n hn => ?_, fun n hn => ?_,
    fun n => ⟨hasUnsigned64_ofInt n, ?_, ?_, ?_⟩,
    fun u => ⟨hasSigned64_ofNat u, toSigned64_ne_minus_zero ?_, ?_⟩⟩
  · obtain ⟨hlow, hhigh⟩ := hn
    rw [encodeZigzag64_ofInt, ← ofInt_natCast, Word.zigzag64, Word.encodeZigzag32]
    congr 1
    split <;> split <;> omega
  · rw [toUnsigned64_ofInt, Word.unsigned64, if_neg hn, ofNat_zero]
  · have hbig : ¬ Word.encodeZigzag32 n < 0x10000000000000000 := by
      unfold IsInt64 at hn
      unfold Word.encodeZigzag32
      split <;> omega
    rw [encodeZigzag64_ofInt, Word.zigzag64, if_neg hbig, ofNat_zero]
  · rw [Value.toZigzag64_of_signed (Value.toSignedNumeral_text n), encodeZigzag64_ofInt]
  · rw [toUnsigned64_ofInt]
    exact ofNat_ne_minus _ _
  · rw [encodeZigzag64_ofInt]
    exact ofNat_ne_minus _ _
  · rw [trim_ofNat]
    exact ofNat_ne_minus _ _
  · rw [decodeZigzag64_ofNat]
    exact ofInt_ne_minus_zero _

end Numeral

/-! ### 32-bit words -/

namespace Word

open Numeral

/-- A signed 32-bit number is told by its residue. -/
theorem eq_of_modEq {m n : Int} (hm : IsInt32 m) (hn : IsInt32 n) (h : m ≡ n [ZMOD 0x100000000]) : m = n := by
  obtain ⟨hmlow, hmhigh⟩ := hm
  obtain ⟨hnlow, hnhigh⟩ := hn
  have hmod : m % 0x100000000 = n % 0x100000000 := h
  omega

theorem signed32_modEq (u : Nat) : signed32 u ≡ u [ZMOD 0x100000000] := by
  show signed32 u % 0x100000000 = u % 0x100000000
  simp only [signed32]
  split <;> omega

theorem unsigned32OfNumeral_eq {a : Numeral} (h : Digits a) :
    unsigned32OfNumeral a = (val a : Int) % 0x100000000 := by
  have hcanonical : unsigned32OfNumeral a = unsigned32OfNumeral (ofNat (val a)) := by
    rw [unsigned32OfNumeral, unsigned32OfNumeral, trim_eq_ofNat h, trim_ofNat]
  rw [hcanonical, unsigned32OfNumeral_ofNat]
  rfl

theorem signed32OfNumeral_eq {a : Numeral} (h : Digits a) : signed32OfNumeral a = signed32 (val a) := by
  have hcanonical : signed32OfNumeral a = signed32OfNumeral (ofNat (val a)) := by
    rw [signed32OfNumeral, signed32OfNumeral, trim_eq_ofNat h, trim_ofNat]
  rw [hcanonical, signed32OfNumeral_ofNat]

/-- A text and the integer that it spells hold the same ZigZag form. -/
theorem decodeZigzag32OfNumeral_eq {a : Numeral} (h : Digits a) :
    decodeZigzag32OfNumeral a = decodeZigzag32 (val a) := by
  rw [decodeZigzag32OfNumeral, unsigned32OfNumeral_eq h, decodeZigzag32]

theorem isInt32_decodeZigzag32 (n : Int) : IsInt32 (decodeZigzag32 n) := by
  unfold IsInt32 decodeZigzag32 unzigzag
  split <;> omega

theorem encodeZigzag32_decodeZigzag32 (n : Int) : encodeZigzag32 (decodeZigzag32 n) = n % 0x100000000 := by
  unfold encodeZigzag32 decodeZigzag32 unzigzag
  split <;> split at * <;> omega

private theorem decodeZigzag32_encodeZigzag32 {n : Int} (h : IsInt32 n) : decodeZigzag32 (encodeZigzag32 n) = n := by
  obtain ⟨hlow, hhigh⟩ := encodeZigzag32_mem h.1 h.2
  rw [decodeZigzag32, Int.emod_eq_of_lt hlow hhigh, unzigzag_encodeZigzag32]

/-- In 32 bits the two ZigZag forms are the same number. -/
theorem zigzag64_of_isInt32 {n : Int} (h : IsInt32 n) : ofNat (zigzag64 n) = ofInt (encodeZigzag32 n) := by
  obtain ⟨hlow, hhigh⟩ := encodeZigzag32_mem h.1 h.2
  rw [zigzag64, if_pos (by omega), ofInt_nonneg hlow]

/-- Every digit text is reduced to its low 32 bits, whichever way it is read: as an unsigned number, as the signed
number with the same residue, and as the number whose ZigZag form the residue is. In 32 bits the ZigZag form is
the one that numerals have in 64 bits, and reading it back is the inverse. A signed number comes back from its
unsigned view of 64 bits and from that of 32 bits. -/
theorem views_reduce :
    (∀ a : Numeral, Digits a →
      unsigned32OfNumeral a = (val a : Int) % 0x100000000 ∧
      (IsInt32 (signed32OfNumeral a) ∧ signed32OfNumeral a ≡ val a [ZMOD 0x100000000]) ∧
      decodeZigzag32OfNumeral a = decodeZigzag32 (val a) ∧
      (IsInt32 (decodeZigzag32 (val a)) ∧
        encodeZigzag32 (decodeZigzag32 (val a)) = (val a : Int) % 0x100000000)) ∧
    ∀ n : Int, IsInt32 n →
      (IsUInt32 (encodeZigzag32 n) ∧ encodeZigzag32 n = if 0 ≤ n then 2 * n else -2 * n - 1) ∧
      (∀ v : Value, v.Spells n → v.toZigzag64 = .ok (ofInt (encodeZigzag32 n))) ∧
      decodeZigzag32 (encodeZigzag32 n) = n ∧
      ∀ a : Numeral, Digits a →
        ((val a : Int) = encodeZigzag32 n → decodeZigzag32OfNumeral a = n) ∧
        ((val a : Int) = n % 0x10000000000000000 → signed32OfNumeral a = n) ∧
        ((val a : Int) = n % 0x100000000 → signed32OfNumeral a = n) := by
  refine ⟨fun a ha => ⟨unsigned32OfNumeral_eq ha, ⟨?_, ?_⟩, decodeZigzag32OfNumeral_eq ha, isInt32_decodeZigzag32 _,
    encodeZigzag32_decodeZigzag32 _⟩, fun n hn => ⟨⟨encodeZigzag32_mem hn.1 hn.2, ?_⟩, fun v hv => ?_,
    decodeZigzag32_encodeZigzag32 hn, fun a ha => ⟨fun h => ?_, fun h => ?_, fun h => ?_⟩⟩⟩
  · rw [signed32OfNumeral_eq ha]
    exact signed32_mem _
  · rw [signed32OfNumeral_eq ha]
    exact signed32_modEq _
  · rw [encodeZigzag32]
    split <;> omega
  · rw [Value.toZigzag64_of_signed hv.toSignedNumeral, zigzag64_of_isInt32 hn]
  · rw [decodeZigzag32OfNumeral_eq ha, h, decodeZigzag32_encodeZigzag32 hn]
  · rw [signed32OfNumeral_eq ha]
    apply eq_of_modEq (signed32_mem _) hn
    have hextended : (val a : Int) ≡ n [ZMOD 0x10000000000000000] := h ▸ Int.mod_modEq _ _
    exact (signed32_modEq _).trans (hextended.of_dvd (by decide))
  · rw [signed32OfNumeral_eq ha]
    apply eq_of_modEq (signed32_mem _) hn
    have htruncated : (val a : Int) ≡ n [ZMOD 0x100000000] := h ▸ Int.mod_modEq _ _
    exact (signed32_modEq _).trans htruncated

end Word

end MessageCodec
