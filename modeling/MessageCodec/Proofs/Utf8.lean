import Mathlib.Tactic
import MessageCodec.Text.Utf8
import MessageCodec.Proofs.Word

/-!
# UTF-8

A text is read back from its bytes: the bytes of a character are a first byte that promises the others,
each within the range that the first byte sets for it. Surrogates are no characters, which is what
keeps the ranges after `0xed` and `0xf4` from refusing anything that was written.
-/

namespace MessageCodec.Utf8

theorem toNat_valid (c : Char) : c.toNat < 0xd800 ∨ 0xdfff < c.toNat ∧ c.toNat < 0x110000 := c.valid

theorem tails_append {value low high seen : Nat} {b : UInt8} (owed : Nat) (rest : List UInt8)
    (hlow : low ≤ b.toNat) (hhigh : b.toNat ≤ high) :
    tails (owed + 1) value low high seen (b :: rest)
      = tails owed (value * 64 + (b.toNat - 0x80)) 0x80 0xbf (seen + 1) rest := by
  rw [tails, if_pos (by simp [hlow, hhigh])]

/-- The first of three bytes allows the second one that is written, since surrogates are not. -/
theorem lead?_of_three {n : Nat} (hlow : 0x800 ≤ n) (hhigh : n < 0x10000) (hvalid : n < 0xd800 ∨ 0xdfff < n) :
    ∃ low high, lead? (0xe0 + n / 4096) = some (n / 4096, 2, low, high) ∧
      low ≤ 0x80 + n / 64 % 64 ∧ 0x80 + n / 64 % 64 ≤ high := by
  rw [lead?, if_neg (by omega), if_neg (by omega), if_neg (by omega)]
  by_cases he0 : n / 4096 = 0
  · exact ⟨0xa0, 0xbf, by rw [if_pos (by omega), he0], by omega, by omega⟩
  · rw [if_neg (by omega)]
    by_cases hed : n / 4096 = 0xd
    · exact ⟨0x80, 0x9f, by rw [if_pos (by omega), hed], by omega, by omega⟩
    · rw [if_neg (by omega), if_pos (by omega), Nat.add_sub_cancel_left]
      exact ⟨0x80, 0xbf, rfl, by omega, by omega⟩

/-- The first of four bytes allows the second one that is written, up to the last character. -/
theorem lead?_of_four {n : Nat} (hlow : 0x10000 ≤ n) (hhigh : n < 0x110000) :
    ∃ low high, lead? (0xf0 + n / 262144) = some (n / 262144, 3, low, high) ∧
      low ≤ 0x80 + n / 4096 % 64 ∧ 0x80 + n / 4096 % 64 ≤ high := by
  rw [lead?, if_neg (by omega), if_neg (by omega), if_neg (by omega), if_neg (by omega),
    if_neg (by omega), if_neg (by omega)]
  by_cases hf0 : n / 262144 = 0
  · exact ⟨0x90, 0xbf, by rw [if_pos (by omega), hf0], by omega, by omega⟩
  · rw [if_neg (by omega)]
    by_cases hf4 : n / 262144 = 4
    · exact ⟨0x80, 0x8f, by rw [if_neg (by omega), if_pos (by omega), hf4], by omega, by omega⟩
    · rw [if_pos (by omega), Nat.add_sub_cancel_left]
      exact ⟨0x80, 0xbf, rfl, by omega, by omega⟩

/-- The head of the bytes of a character is the character. -/
theorem head_encodeChar (c : Char) (rest : List UInt8) :
    ∃ b tail, encodeChar c = b :: tail ∧ head b (tail ++ rest) = .char c tail.length := by
  have hvalid := toNat_valid c
  have hback : Char.ofNat c.toNat = c := Char.ofNat_toNat c
  simp only [encodeChar]
  by_cases h1 : c.toNat < 0x80
  · refine ⟨_, _, if_pos h1, ?_⟩
    rw [head, Word.toNat_toUInt8 (by omega), lead?, if_pos h1]
    simp only [tails, hback, List.length_nil]
  · by_cases h2 : c.toNat < 0x800
    · refine ⟨_, _, by rw [if_neg h1, if_pos h2], ?_⟩
      have hlead : lead? (0xc0 + c.toNat / 64) = some (c.toNat / 64, 1, 0x80, 0xbf) := by
        rw [lead?, if_neg (by omega), if_neg (by omega), if_pos (by omega)]
        simp
      rw [head, Word.toNat_toUInt8 (by omega), hlead]
      simp only [List.cons_append, List.nil_append]
      have hb := Word.toNat_toUInt8 (show 0x80 + c.toNat % 64 < 256 by omega)
      rw [tails_append _ _ (by omega) (by omega), hb]
      simp only [tails, List.length_singleton]
      rw [show c.toNat / 64 * 64 + (0x80 + c.toNat % 64 - 0x80) = c.toNat by omega, hback]
    · by_cases h3 : c.toNat < 0x10000
      · refine ⟨_, _, by rw [if_neg h1, if_neg h2, if_pos h3], ?_⟩
        have hb1 := Word.toNat_toUInt8 (show 0x80 + c.toNat / 64 % 64 < 256 by omega)
        have hb2 := Word.toNat_toUInt8 (show 0x80 + c.toNat % 64 < 256 by omega)
        obtain ⟨low, high, hlead, hlow, hhigh⟩ := lead?_of_three (by omega) h3 (by omega)
        rw [head, Word.toNat_toUInt8 (by omega), hlead]
        simp only [List.cons_append, List.nil_append]
        rw [tails_append _ _ (by omega) (by omega), tails_append _ _ (by omega) (by omega), hb1, hb2]
        simp only [tails, List.length_cons, List.length_nil]
        rw [show (c.toNat / 4096 * 64 + (0x80 + c.toNat / 64 % 64 - 0x80)) * 64
          + (0x80 + c.toNat % 64 - 0x80) = c.toNat by omega, hback]
      · refine ⟨_, _, by rw [if_neg h1, if_neg h2, if_neg h3], ?_⟩
        have hb1 := Word.toNat_toUInt8 (show 0x80 + c.toNat / 4096 % 64 < 256 by omega)
        have hb2 := Word.toNat_toUInt8 (show 0x80 + c.toNat / 64 % 64 < 256 by omega)
        have hb3 := Word.toNat_toUInt8 (show 0x80 + c.toNat % 64 < 256 by omega)
        obtain ⟨low, high, hlead, hlow, hhigh⟩ := lead?_of_four (show 0x10000 ≤ c.toNat by omega) (by omega)
        rw [head, Word.toNat_toUInt8 (by omega), hlead]
        simp only [List.cons_append, List.nil_append]
        rw [tails_append _ _ (by omega) (by omega), tails_append _ _ (by omega) (by omega),
          tails_append _ _ (by omega) (by omega), hb1, hb2, hb3]
        simp only [tails, List.length_cons, List.length_nil]
        rw [show ((c.toNat / 262144 * 64 + (0x80 + c.toNat / 4096 % 64 - 0x80)) * 64
          + (0x80 + c.toNat / 64 % 64 - 0x80)) * 64 + (0x80 + c.toNat % 64 - 0x80) = c.toNat by omega, hback]

/-- A text is read back from its bytes. -/
theorem decodeLossy_encode (cs : List Char) : decodeLossy (encode cs) = cs := by
  induction cs with
  | nil => rw [encode, List.flatMap_nil, decodeLossy]
  | cons c cs ih =>
    obtain ⟨b, tail, hbytes, hhead⟩ := head_encodeChar c (encode cs)
    rw [encode, List.flatMap_cons, ← encode, hbytes, List.cons_append, decodeLossy, hhead]
    simp only [List.drop_left, ih]

end MessageCodec.Utf8
