import MessageCodec.Proofs.Coerce
import MessageCodec.Proofs.Position

/-!
# Forms of a varint

A number goes through several loops: a 64-bit varint is written by dividing a numeral again and again and read
by adding up multiples of numerals, a tag or length is written and read as an integer, and passing over a
varint looks at high bits only. The writers produce the same bytes, the shortest that are read as the number,
and the readers and the skipper accept the same bytes and make the same of them.
-/

namespace MessageCodec.Wire

/-! ### The shortest form -/

/-- All bytes but the last have the high bit set, and the last is not zero unless it stands alone. -/
def IsShortest (bytes : List UInt8) : Prop :=
  ∃ front last, bytes = front ++ [last] ∧ (∀ b ∈ front, 128 ≤ b.toNat) ∧ last.toNat < 128 ∧
    (last = 0 → front = [])

theorem isShortest_varintOfNat (n : Nat) : IsShortest (varintOfNat n) := by
  induction n using Nat.strongRecOn with
  | _ n ih =>
    rw [varintOfNat]
    by_cases hn : n < 128
    · rw [if_pos hn]
      exact ⟨[], n.toUInt8, rfl, by simp, by rw [Word.toNat_toUInt8 (by omega)]; exact hn, fun _ => rfl⟩
    · rw [if_neg hn]
      obtain ⟨front, last, heq, hfront, hlast, hzero⟩ := ih (n / 128) (by omega)
      refine ⟨(n % 128 + 128).toUInt8 :: front, last, by rw [heq]; rfl, ?_, hlast, fun h => ?_⟩
      · rw [List.forall_mem_cons]
        exact ⟨by rw [Word.toNat_toUInt8 (by omega)]; omega, hfront⟩
      · -- the bytes of `n / 128` would be a lone zero, but `n / 128` is not zero
        have hval := groupVal_varintOfNat (n / 128)
        rw [heq, hzero h, h] at hval
        have hlone : groupVal ([] ++ [0]) = 0 := rfl
        omega

private theorem groupVal_lt (bs : List UInt8) : groupVal bs < 128 ^ bs.length := by
  induction bs with
  | nil => decide
  | cons b bs ih =>
    rw [groupVal, List.length_cons, pow_succ]
    omega

/-- Bytes that are read as a 64-bit number are no fewer than those that are written for it. -/
theorem length_varintOfNat_le {n : Nat} (hn : n < 0x10000000000000000) {p rest : List UInt8}
    (h : readVarint64 (p ++ rest) = some (Numeral.ofNat n, rest)) : (varintOfNat n).length ≤ p.length := by
  obtain ⟨q, hq, hvarint, heq⟩ := readVarint64_some h
  obtain rfl := List.append_cancel_right hq
  have hn' := Numeral.ofNat_injective heq
  have hpos := List.length_pos_iff.2 hvarint.ne_nil
  by_cases hten : maxVarintBytes ≤ p.length
  · exact le_trans (isVarint_of_lt hn).length_le hten
  · -- fewer than ten groups are less than `2 ^ 64`, so nothing was cut off
    have hlt := groupVal_lt p
    have hpow : 128 ^ p.length ≤ 128 ^ 9 := Nat.pow_le_pow_right (by decide) (by simp [maxVarintBytes] at hten; omega)
    rw [Nat.mod_eq_of_lt (lt_of_lt_of_le hlt (le_trans hpow (by decide)))] at hn'
    rw [← hn'] at hlt
    exact (isVarint_varintOfNat hlt hpos).length_le

theorem varintOfValue_of_spells {v : Value} {n : Int} (h : v.Spells n) :
    varintOfValue v = .ok (varintOfNat (Word.unsigned64 n)) := by
  rw [varintOfValue, Value.toUnsignedNumeral_of_signed h.toSignedNumeral, ← varintOfNumeral_ofNat]
  rfl

/-- An integer is written as at most ten bytes in the shortest form, wherever the buffer ends, and read back as
its unsigned 64-bit view, whatever follows. No fewer bytes are read as that number. -/
theorem varintOfValue_trip {v : Value} {n : Int} (h : v.Spells n) (out rest : List UInt8) :
    ∃ bytes d, varintOfValue v = .ok bytes ∧ 1 ≤ bytes.length ∧ bytes.length ≤ 10 ∧ IsShortest bytes ∧
      Numeral.Denotes d (Word.unsigned64 n) ∧
      readVarint64.at (out ++ bytes ++ rest) out.length = (some d, out.length + bytes.length) ∧
      ∀ p, readVarint64 (p ++ rest) = some (d, rest) → bytes.length ≤ p.length := by
  have hlt := Word.unsigned64_lt n
  have hvarint := isVarint_of_lt hlt
  refine ⟨varintOfNat (Word.unsigned64 n), Numeral.ofNat (Word.unsigned64 n), varintOfValue_of_spells h,
    List.length_pos_iff.2 hvarint.ne_nil, hvarint.length_le, isShortest_varintOfNat _,
    Numeral.denotes_iff.2 rfl, ?_, fun p hp => length_varintOfNat_le hlt hp⟩
  have hdata : (out ++ varintOfNat (Word.unsigned64 n) ++ rest).drop out.length
      = varintOfNat (Word.unsigned64 n) ++ rest := by
    rw [List.append_assoc, List.drop_left]
  exact Reader.at_append hdata hvarint.ne_nil (readVarint64_varintOfNat hlt rest)

/-- A padded minus one takes all ten bytes. -/
theorem varintOfValue_trip_minus : (Value.text "\t-001\n").Spells (-1) ∧
    ∃ bytes d, varintOfValue (.text "\t-001\n") = .ok bytes ∧ IsShortest bytes ∧
      Numeral.Denotes d 0xffffffffffffffff ∧
      readVarint64.at ([8] ++ bytes ++ [0x80]) 1 = (some d, 1 + bytes.length) := by
  have htext : "\t-001\n".toList = ['\t'] ++ ('-' :: ['0', '0', '1'] ++ ['\n']) := rfl
  have hspells : (Value.text "\t-001\n").Spells (-1) :=
    .text htext (List.all_eq_true.1 rfl) (List.all_eq_true.1 rfl) (.minus (List.all_eq_true.1 rfl) (by simp))
  obtain ⟨bytes, d, hbytes, -, -, hshortest, hd, hread, -⟩ := varintOfValue_trip hspells [8] [0x80]
  exact ⟨hspells, bytes, d, hbytes, hshortest, hd, hread⟩

/-! ### The readers and the skipper -/

private theorem groupVal_eq_sum (bs : List UInt8) :
    groupVal bs = ∑ i ∈ Finset.range bs.length, (bs.getD i 0).toNat % 128 * 128 ^ i := by
  induction bs with
  | nil => rfl
  | cons b bs ih =>
    rw [groupVal, ih, List.length_cons, Finset.sum_range_succ', Finset.mul_sum, Nat.add_comm]
    congr 1
    · apply Finset.sum_congr rfl
      intro i _
      rw [List.getD_cons_succ, pow_succ]
      ring
    · rw [List.getD_cons_zero, pow_zero, Nat.mul_one]

/-- The low seven bits of the bytes from one position up to another, each with the weight of its place. -/
def groupSum (data : List UInt8) (cursor stop : Nat) : Nat :=
  ∑ i ∈ Finset.range (stop - cursor), (data.getD (cursor + i) 0).toNat % 128 * 128 ^ i

theorem groupSum_of_drop {data p rest : List UInt8} {cursor : Nat} (h : data.drop cursor = p ++ rest) :
    groupSum data cursor (cursor + p.length) = groupVal p := by
  rw [groupSum, groupVal_eq_sum, Nat.add_sub_cancel_left]
  apply Finset.sum_congr rfl
  intro i hi
  have hbyte : data.getD (cursor + i) 0 = p.getD i 0 := by
    rw [List.getD_eq_getElem?_getD, ← List.getElem?_drop, h, List.getElem?_append_left (Finset.mem_range.1 hi),
      List.getD_eq_getElem?_getD]
  rw [hbyte]

theorem readVarint64_at {data p rest : List UInt8} {cursor : Nat} (hdata : data.drop cursor = p ++ rest)
    (hp : IsVarint maxVarintBytes p) :
    readVarint64.at data cursor =
      (some (Numeral.ofNat (groupSum data cursor (cursor + p.length) % 0x10000000000000000)), cursor + p.length) := by
  rw [groupSum_of_drop hdata]
  exact Reader.at_append hdata hp.ne_nil (readVarint64_append hp rest)

theorem readVarint32_at {data p rest : List UInt8} {cursor : Nat} (hdata : data.drop cursor = p ++ rest)
    (hp : IsVarint maxVarintBytes p) :
    readVarint32.at data cursor =
      (some (groupSum data cursor (cursor + p.length) % 0x100000000), cursor + p.length) := by
  rw [groupSum_of_drop hdata]
  exact Reader.at_append hdata hp.ne_nil (readVarint32_append hp rest)

/-! ### The writers -/

private theorem varintOfInt_eq {n : Int} (h : n < 0x10000000000000000) :
    varintOfInt n = varintOfNat (Word.unsigned64 n) := by
  by_cases hneg : n < 0
  · rw [varintOfInt, if_pos hneg, Numeral.toUnsigned64_ofInt, varintOfNumeral_ofNat]
  · rw [varintOfInt_nonneg (by omega), Word.unsigned64, if_pos (by omega), Int.emod_eq_of_lt (by omega) h]

theorem varintOfValue_int {n : Int} (h : n < 0x10000000000000000)
    (hlength : (Numeral.ofNat n.natAbs).length ≤ IntegerText.digitLimit) :
    varintOfValue (.int n) = .ok (varintOfInt n) := by
  rw [varintOfValue_of_spells (.int hlength), varintOfInt_eq h]

private theorem varint32OfInt_eq {n : Int} (h : n < 0x10000000000000000) :
    varint32OfInt n = varintOfValue (.int n) := by
  by_cases hneg : n < 0
  · rw [varint32OfInt, if_pos hneg]
  · rw [varint32OfInt, if_neg hneg, varintOfValue_int h (IntegerText.length_ofNat_le (by omega)),
      varintOfInt_nonneg (by omega)]

/-- The paths over numerals and over integers are the same. At every position the two readers and the skipper
succeed on the same bytes and move to the same position, and the readers yield the groups between the positions
added up, in 64 and in 32 bits. The two writers yield the same bytes for every integer below `2 ^ 64`, or fail
alike where it has no text. -/
theorem varint_paths_agree :
    (∀ (data : List UInt8) (cursor number stop : Nat), skipAt data cursor WireType.varint.code number = stop →
      cursor ≤ stop ∧ (cursor < stop ↔ ∃ p, IsVarint maxVarintBytes p ∧ p <+: data.drop cursor) ∧
      readVarint64.at data cursor =
        (if cursor < stop then some (Numeral.ofNat (groupSum data cursor stop % 0x10000000000000000)) else none,
          stop) ∧
      readVarint32.at data cursor =
        (if cursor < stop then some (groupSum data cursor stop % 0x10000000000000000 % 0x100000000) else none,
          stop)) ∧
    ∀ n : Int, n < 0x10000000000000000 → varint32OfInt n = varintOfValue (.int n) ∧
      ((Numeral.ofNat n.natAbs).length ≤ IntegerText.digitLimit → varint32OfInt n = .ok (varintOfInt n)) := by
  refine ⟨fun data cursor number stop h => ?_, fun n hn => ⟨varint32OfInt_eq hn, fun hlength => ?_⟩⟩
  · obtain ⟨p, rest, hdata, hp, hmoved⟩ | ⟨hnone, hstayed⟩ := skipAt_cases data cursor number .varint
    · cases hp with
      | varint hp =>
        obtain rfl : cursor + p.length = stop := hmoved.symm.trans h
        have hpos : cursor < cursor + p.length := Nat.lt_add_of_pos_right (List.length_pos_iff.2 hp.ne_nil)
        rw [if_pos hpos, if_pos hpos, Nat.mod_mod_of_dvd _ (by decide)]
        exact ⟨hpos.le, ⟨fun _ => ⟨p, hp, rest, hdata.symm⟩, fun _ => hpos⟩, readVarint64_at hdata hp,
          readVarint32_at hdata hp⟩
    · obtain rfl : cursor = stop := hstayed.symm.trans h
      rw [if_neg (lt_irrefl cursor), if_neg (lt_irrefl cursor)]
      refine ⟨le_rfl, ⟨fun hlt => absurd hlt (lt_irrefl cursor), fun hsome => ?_⟩,
        readVarint64_frames.at_none hnone, readVarint32_frames.at_none hnone⟩
      obtain ⟨p, hp, hprefix⟩ := hsome
      exact absurd hprefix (hnone p (.varint hp))
  · rw [varint32OfInt_eq hn, varintOfValue_int hn hlength]

end MessageCodec.Wire
