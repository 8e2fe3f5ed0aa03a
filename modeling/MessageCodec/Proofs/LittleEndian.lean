import Mathlib.Data.Nat.Digits.Defs
import MessageCodec.Proofs.Coerce
import MessageCodec.Proofs.Position

/-!
# Numerals as bytes

A numeral is cut into bytes by dividing it by 256 over and over, and put together again by multiplying and adding
from the last byte on. Both are what base 256 says they are, byte `i` counting for `256 ^ i`, so each undoes the
other as far as the number of bytes goes. A 64-bit word is the case of eight bytes, wherever it stands.
-/

namespace MessageCodec

namespace Word

theorem ofBytes_eq_ofDigits (bs : List UInt8) : ofBytes bs = Nat.ofDigits 256 (bs.map UInt8.toNat) := by
  induction bs with
  | nil => rfl
  | cons b bs ih => rw [ofBytes_cons, ih, List.map_cons, Nat.ofDigits_cons]

/-- Byte `i` is digit `i` in base 256. -/
theorem map_toNat_toBytes (count n : Nat) :
    (toBytes count n).map UInt8.toNat = (List.range count).map fun i => n / 256 ^ i % 256 := by
  induction count generalizing n with
  | zero => rfl
  | succ count ih =>
    rw [toBytes, List.map_cons, ih, toNat_toUInt8 (Nat.mod_lt _ (by decide)), List.range_succ_eq_map, List.map_cons,
      List.map_map, pow_zero, Nat.div_one]
    congr 1
    apply List.map_congr_left
    intro i _
    rw [Nat.div_div_eq_div_mul, ← pow_succ', Function.comp_apply]

theorem toBytes_ofBytes (bs : List UInt8) : toBytes bs.length (ofBytes bs) = bs := by
  induction bs with
  | nil => rfl
  | cons b bs ih =>
    have hb := b.toNat_lt
    rw [ofBytes_cons, List.length_cons, toBytes, show (b.toNat + 256 * ofBytes bs) / 256 = ofBytes bs by omega, ih,
      show (b.toNat + 256 * ofBytes bs) % 256 = b.toNat by omega]
    exact congrArg (· :: bs) UInt8.ofNat_toNat

theorem unsigned64_eq_emod {n : Int} (hlow : -0x8000000000000000 ≤ n) (hhigh : n < 0x10000000000000000) :
    (unsigned64 n : Int) = n % 0x10000000000000000 := by
  rw [unsigned64, if_pos ⟨hlow, hhigh⟩, Int.toNat_of_nonneg (Int.emod_nonneg n (by decide))]

end Word

namespace Numeral

theorem toBytes_eq {a : Numeral} (h : Digits a) (count : Nat) : toBytes a count = Word.toBytes count (val a) := by
  cases count with
  | zero => rfl
  | succ count =>
    rw [toBytes, divide_eq h (by decide)]
    exact congrArg _ (toBytes_ofNat (val a / 256) count)

theorem ofBytes_toBytes {a : Numeral} (h : Digits a) (count : Nat) :
    ofBytes (toBytes a count) = ofNat (val a % 256 ^ count) := by
  rw [toBytes_eq h, ofBytes_eq, Word.ofBytes_toBytes]

theorem toBytes_ofBytes (bs : List UInt8) : toBytes (ofBytes bs) bs.length = bs := by
  rw [ofBytes_eq, toBytes_ofNat, Word.toBytes_ofBytes]

end Numeral

/-- Every integer of at most 64 bits spells itself. -/
theorem Value.spells_int {n : Int} (h : n.natAbs < 0x10000000000000000) : (Value.int n).Spells n :=
  .int (IntegerText.length_ofNat_le h)

namespace Wire

open Numeral

theorem fixed64OfValue_of_spells {v : Value} {n : Int} (h : v.Spells n) :
    fixed64OfValue v = .ok (Word.toBytes 8 (Word.unsigned64 n)) := by
  rw [fixed64OfValue, Value.toUnsignedNumeral_of_signed h.toSignedNumeral, ← toBytes_ofNat]
  rfl

theorem readFixed64_append {u : Nat} (hu : u < 0x10000000000000000) (rest : List UInt8) :
    readFixed64 (Word.toBytes 8 u ++ rest) = some (ofNat u, rest) := by
  rw [readFixed64, Reader.map_of_some (take_append (Word.length_toBytes 8 u) rest), ofBytes_eq, Word.ofBytes_toBytes,
    Nat.mod_eq_of_lt (show u < 256 ^ 8 from hu)]

private theorem readSfixed64_append {u : Nat} (hu : u < 0x10000000000000000) (rest : List UInt8) :
    readSfixed64 (Word.toBytes 8 u ++ rest) = some (ofInt (Word.signed64 u), rest) := by
  rw [readSfixed64, Reader.map_of_some (readFixed64_append hu rest), toSigned64_ofNat hu]

/-- What a reader takes off the front of any bytes, it takes from the middle of any others. -/
theorem Reader.at_between {α : Type} {r : Reader α} {p : List UInt8} {a : α} (hp : p ≠ [])
    (hread : ∀ rest, r (p ++ rest) = some (a, rest)) (before after : List UInt8) :
    r.at (before ++ (p ++ after)) before.length = (some a, before.length + p.length) :=
  Reader.at_append List.drop_left hp (hread after)

/-- Conversion between numerals and bytes, least significant first, is exact. The bytes of a digit text of any length
are the lowest digits of its number in base 256, as many as are asked for, and bytes are put together to the canonical
text of the number that they are the digits of. So a text comes back reduced to the bytes that were kept, and bytes
come back as they were. An integer that has a 64-bit view is written as eight bytes, and wherever these stand, they
are read as the residue of the integer, or as the integer itself where it is a signed one. -/
theorem littleEndian_exact :
    (∀ (a : Numeral) (count : Nat), Digits a →
      (a.toBytes count).map UInt8.toNat = (List.range count).map (fun i => val a / 256 ^ i % 256) ∧
      Denotes (ofBytes (a.toBytes count)) (val a % 256 ^ count)) ∧
    (∀ bs : List UInt8, Denotes (ofBytes bs) (Nat.ofDigits 256 (bs.map UInt8.toNat)) ∧
      (ofBytes bs).toBytes bs.length = bs) ∧
    ∀ n : Int, -0x8000000000000000 ≤ n → n < 0x10000000000000000 →
      (Value.int n).Spells n ∧ ∀ v : Value, v.Spells n → ∃ word, fixed64OfValue v = .ok word ∧ word.length = 8 ∧
        ∀ before after : List UInt8,
          readFixed64.at (before ++ (word ++ after)) before.length =
            (some (ofInt (n % 0x10000000000000000)), before.length + 8) ∧
          (n < 0x8000000000000000 →
            readSfixed64.at (before ++ (word ++ after)) before.length = (some (ofInt n), before.length + 8)) := by
  refine ⟨fun a count ha => ⟨?_, denotes_iff.2 (ofBytes_toBytes ha count)⟩,
    fun bs => ⟨denotes_iff.2 ?_, toBytes_ofBytes bs⟩,
    fun n hlow hhigh => ⟨Value.spells_int (by omega), fun v hv => ⟨_, fixed64OfValue_of_spells hv,
      Word.length_toBytes 8 _, fun before after => ⟨?_, fun hsigned => ?_⟩⟩⟩⟩
  · rw [toBytes_eq ha, Word.map_toNat_toBytes]
  · rw [ofBytes_eq, Word.ofBytes_eq_ofDigits]
  · rw [← Word.unsigned64_eq_emod hlow hhigh, ofInt_natCast]
    exact Reader.at_between (List.cons_ne_nil _ _) (readFixed64_append (Word.unsigned64_lt n)) before after
  · have hread := readSfixed64_append (Word.unsigned64_lt n)
    rw [Word.signed64_unsigned64 hlow hsigned] at hread
    exact Reader.at_between (List.cons_ne_nil _ _) hread before after

/-- One byte of 511 with zeros in front is 255, and the least signed word comes back from between other bytes. -/
theorem littleEndian_exact_least : Digits "00511".toList ∧ Denotes (ofBytes (toBytes "00511".toList 1)) 255 ∧
    ∃ word, fixed64OfValue (.int (-0x8000000000000000)) = .ok word ∧
      readFixed64.at ([0, 1] ++ (word ++ [2])) 2 = (some (ofInt 0x8000000000000000), 10) ∧
      readSfixed64.at ([0, 1] ++ (word ++ [2])) 2 = (some (ofInt (-0x8000000000000000)), 10) := by
  have hdigits : Digits "00511".toList := List.all_eq_true.1 (by decide)
  obtain ⟨hcut, -, hword⟩ := littleEndian_exact
  obtain ⟨hspells, hwritten⟩ := hword (-0x8000000000000000) (by decide) (by decide)
  obtain ⟨word, hwrite, -, hread⟩ := hwritten _ hspells
  obtain ⟨hunsigned, hsigned⟩ := hread [0, 1] [2]
  exact ⟨hdigits, (hcut _ 1 hdigits).2, word, hwrite, hunsigned, hsigned (by decide)⟩

end Wire

end MessageCodec
