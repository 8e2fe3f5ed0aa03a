import MessageCodec.Proofs.Word
import MessageCodec.Wire.Skip

/-!
# Varints

What the bytes of a varint are and which number they stand for, apart from any reader: at most ten
bytes, all but the last with the high bit set, seven bits of the number in each. The two readers and
the skipper accept exactly these bytes at the head of the input, and the writers produce them.
-/

namespace MessageCodec.Wire

/-- The bytes of a varint of at most `left` bytes. -/
inductive IsVarint : (left : Nat) → List UInt8 → Prop
  | last {left : Nat} {b : UInt8} (h : b.toNat < 128) : IsVarint (left + 1) [b]
  | more {left : Nat} {b : UInt8} {bs : List UInt8} (h : 128 ≤ b.toNat) (hbs : IsVarint left bs) :
      IsVarint (left + 1) (b :: bs)

/-- The number whose groups of seven bits, least significant first, stand in the bytes. -/
def groupVal : List UInt8 → Nat
  | [] => 0
  | b :: bs => b.toNat % 128 + 128 * groupVal bs

theorem IsVarint.ne_nil {left : Nat} {bs : List UInt8} (h : IsVarint left bs) : bs ≠ [] := by
  cases h <;> simp

theorem IsVarint.length_le {left : Nat} {bs : List UInt8} (h : IsVarint left bs) : bs.length ≤ left := by
  induction h with
  | last h => simp
  | more h hbs ih => simpa using ih

/-- No varint is the beginning of another one. -/
theorem IsVarint.append_inj {left : Nat} {p q rest rest' : List UInt8} (hp : IsVarint left p)
    (hq : IsVarint left q) (h : p ++ rest = q ++ rest') : p = q ∧ rest = rest' := by
  induction hp generalizing q with
  | last hlast =>
    cases hq with
    | last _ => simpa using h
    | more hmore _ =>
      obtain ⟨rfl, _⟩ := List.cons.inj h
      omega
  | more hmore _ ih =>
    cases hq with
    | last hlast =>
      obtain ⟨rfl, _⟩ := List.cons.inj h
      omega
    | more _ hq' =>
      obtain ⟨rfl, htail⟩ := List.cons.inj h
      obtain ⟨rfl, rfl⟩ := ih hq' htail
      exact ⟨rfl, rfl⟩

/-! ### Reading -/

theorem skipVarint_append {left : Nat} {p : List UInt8} (h : IsVarint left p) (rest : List UInt8) :
    skipVarint left (p ++ rest) = some rest := by
  induction h with
  | last h =>
    rw [List.singleton_append, skipVarint, if_pos h]
  | more h _ ih =>
    rw [List.cons_append, skipVarint, if_neg (by omega), ih]

theorem skipVarint_some {left : Nat} {bs rest : List UInt8} (h : skipVarint left bs = some rest) :
    ∃ p, bs = p ++ rest ∧ IsVarint left p := by
  induction left generalizing bs with
  | zero => simp [skipVarint] at h
  | succ left ih =>
    cases bs with
    | nil => simp [skipVarint] at h
    | cons b tail =>
      rw [skipVarint] at h
      by_cases hb : b.toNat < 128
      · rw [if_pos hb, Option.some.injEq] at h
        exact ⟨[b], by rw [h, List.singleton_append], .last hb⟩
      · rw [if_neg hb] at h
        obtain ⟨p, rfl, hp⟩ := ih h
        exact ⟨b :: p, rfl, .more (by omega) hp⟩

private theorem varint32From_append {left : Nat} {p : List UInt8} (h : IsVarint left p) (sum weight : Nat)
    (rest : List UInt8) :
    varint32From sum weight left (p ++ rest) = some ((sum + groupVal p * weight) % 0x100000000, rest) := by
  induction h generalizing sum weight with
  | last h =>
    rw [List.singleton_append, varint32From, if_pos h]
    simp [groupVal]
  | @more left b bs h _ ih =>
    rw [List.cons_append, varint32From, if_neg (by omega), ih, groupVal]
    congr 3
    ring

private theorem varint32From_eq_skipVarint (sum weight left : Nat) (bs : List UInt8) :
    (varint32From sum weight left bs).map Prod.snd = skipVarint left bs := by
  induction left generalizing sum weight bs with
  | zero => rfl
  | succ left ih =>
    cases bs with
    | nil => rfl
    | cons b tail =>
      rw [varint32From, skipVarint]
      by_cases hb : b.toNat < 128
      · rw [if_pos hb, if_pos hb]
        rfl
      · rw [if_neg hb, if_neg hb]
        exact ih _ _ _

theorem readVarint32_append {p : List UInt8} (h : IsVarint maxVarintBytes p) (rest : List UInt8) :
    readVarint32 (p ++ rest) = some (groupVal p % 0x100000000, rest) := by
  rw [readVarint32, varint32From_append h, Nat.zero_add, Nat.mul_one]

theorem readVarint32_some {bs rest : List UInt8} {n : Nat} (h : readVarint32 bs = some (n, rest)) :
    ∃ p, bs = p ++ rest ∧ IsVarint maxVarintBytes p ∧ n = groupVal p % 0x100000000 := by
  have hskip : skipVarint maxVarintBytes bs = some rest := by
    rw [← varint32From_eq_skipVarint 0 1, ← readVarint32, h]
    rfl
  obtain ⟨p, rfl, hp⟩ := skipVarint_some hskip
  rw [readVarint32_append hp] at h
  exact ⟨p, rfl, hp, (Prod.mk.inj (Option.some.inj h)).1.symm⟩

/-- One more group on a sum. A group of zero is passed over, which is the same as adding it. -/
theorem add_group (sum weight group : Nat) :
    (if group = 0 then Numeral.ofNat sum
      else (Numeral.ofNat sum).add ((Numeral.ofNat weight).multiply group))
      = Numeral.ofNat (sum + weight * group) := by
  split
  · rename_i h
    rw [h, Nat.mul_zero, Nat.add_zero]
  · rw [Numeral.multiply_eq (Numeral.digits_ofNat _), Numeral.val_ofNat, Int.toNat_natCast,
      Numeral.add_eq (Numeral.digits_ofNat _) (Numeral.digits_ofNat _), Numeral.val_ofNat,
      Numeral.val_ofNat]

private theorem varint64From_append {left : Nat} (hleft : left ≤ 10) {p : List UInt8} (h : IsVarint left p)
    (sum : Nat) (hsum : sum < 128 ^ (10 - left)) (rest : List UInt8) :
    varint64From (Numeral.ofNat sum) (Numeral.ofNat (128 ^ (10 - left))) left (p ++ rest)
      = some (Numeral.ofNat ((sum + 128 ^ (10 - left) * groupVal p) % 0x10000000000000000), rest) := by
  induction h generalizing sum with
  | @last left b h =>
    rw [List.singleton_append, varint64From]
    simp only [add_group]
    rw [if_pos h]
    by_cases hlast : left = 0
    · -- the tenth byte: only one of its bits is within the word
      subst hlast
      rw [if_pos rfl, show (10 - (0 + 1)) = 9 from rfl] at *
      simp only [groupVal]
      congr 3
      omega
    · rw [if_neg hlast]
      have hpow : 128 ^ (10 - (left + 1)) * 128 ≤ 128 ^ 9 := by
        rw [← pow_succ]
        exact Nat.pow_le_pow_right (by decide) (by omega)
      have hgroup : b.toNat % 128 ≤ 127 := by omega
      have hmul : 128 ^ (10 - (left + 1)) * (b.toNat % 128) ≤ 128 ^ (10 - (left + 1)) * 127 :=
        Nat.mul_le_mul_left _ hgroup
      have hsmall : sum + 128 ^ (10 - (left + 1)) * (b.toNat % 128) < 0x10000000000000000 := by omega
      simp only [groupVal, Nat.mul_zero, Nat.add_zero]
      rw [Nat.mod_eq_of_lt hsmall]
  | @more left b bs h hbs ih =>
    have hleft' : left ≠ 0 := by
      rintro rfl
      exact absurd hbs (by intro h; cases h)
    have hweight : 128 ^ (10 - (left + 1)) * 128 = 128 ^ (10 - left) := by
      rw [← pow_succ]
      congr 1
      omega
    rw [List.cons_append, varint64From]
    simp only [add_group]
    rw [if_neg (by omega), if_neg hleft', Numeral.multiply_eq (Numeral.digits_ofNat _), Numeral.val_ofNat,
      show Int.toNat 128 = 128 from rfl, hweight, ih (by omega) _ (by
        have hgroup : b.toNat % 128 ≤ 127 := by omega
        have hmul := Nat.mul_le_mul_left (128 ^ (10 - (left + 1))) hgroup
        omega), groupVal]
    congr 4
    rw [← hweight]
    ring

private theorem varint64From_eq_skipVarint (sum weight : Numeral) (left : Nat) (bs : List UInt8) :
    (varint64From sum weight left bs).map Prod.snd = skipVarint left bs := by
  induction left generalizing sum weight bs with
  | zero => rfl
  | succ left ih =>
    cases bs with
    | nil => rfl
    | cons b tail =>
      rw [varint64From, skipVarint]
      by_cases hb : b.toNat < 128
      · rw [if_pos hb, if_pos hb]
        rfl
      · rw [if_neg hb, if_neg hb]
        exact ih _ _ _

theorem readVarint64_append {p : List UInt8} (h : IsVarint maxVarintBytes p) (rest : List UInt8) :
    readVarint64 (p ++ rest) = some (Numeral.ofNat (groupVal p % 0x10000000000000000), rest) := by
  have hread := varint64From_append (le_refl 10) h 0 (by decide) rest
  rw [Numeral.ofNat_zero, show Numeral.ofNat (128 ^ (10 - 10)) = ['1'] from
    Numeral.ofNat_of_lt (by decide)] at hread
  rw [readVarint64, maxVarintBytes, hread]
  simp

theorem readVarint64_some {bs rest : List UInt8} {a : Numeral} (h : readVarint64 bs = some (a, rest)) :
    ∃ p, bs = p ++ rest ∧ IsVarint maxVarintBytes p ∧ a = Numeral.ofNat (groupVal p % 0x10000000000000000) := by
  have hskip : skipVarint maxVarintBytes bs = some rest := by
    rw [← varint64From_eq_skipVarint ['0'] ['1'], ← readVarint64, h]
    rfl
  obtain ⟨p, rfl, hp⟩ := skipVarint_some hskip
  rw [readVarint64_append hp] at h
  exact ⟨p, rfl, hp, (Prod.mk.inj (Option.some.inj h)).1.symm⟩

/-! ### Writing -/

theorem isVarint_varintOfNat {left n : Nat} (h : n < 128 ^ left) (hleft : 0 < left) :
    IsVarint left (varintOfNat n) := by
  induction left generalizing n with
  | zero => omega
  | succ left ih =>
    rw [varintOfNat]
    by_cases hn : n < 128
    · rw [if_pos hn]
      exact .last (by rw [Word.toNat_toUInt8 (by omega)]; exact hn)
    · have hpos : 0 < left := by
        rcases Nat.eq_zero_or_pos left with rfl | hpos
        · simp at h
          omega
        · exact hpos
      rw [if_neg hn]
      rw [pow_succ] at h
      exact .more (by rw [Word.toNat_toUInt8 (by omega)]; omega) (ih (by omega) hpos)

theorem isVarint_of_lt {n : Nat} (h : n < 0x10000000000000000) : IsVarint maxVarintBytes (varintOfNat n) :=
  isVarint_varintOfNat (lt_trans h (by decide)) (by decide)

theorem groupVal_varintOfNat (n : Nat) : groupVal (varintOfNat n) = n := by
  induction n using Nat.strongRecOn with
  | _ n ih =>
    rw [varintOfNat]
    by_cases hn : n < 128
    · rw [if_pos hn, groupVal, groupVal, Word.toNat_toUInt8 (by omega)]
      omega
    · rw [if_neg hn, groupVal, ih (n / 128) (by omega), Word.toNat_toUInt8 (by omega)]
      omega

private theorem markGroups_groups {fuel n : Nat} (h : n < 128 ^ fuel) (hfuel : 0 < fuel) :
    markGroups (groups fuel (Numeral.ofNat n)) = varintOfNat n ∧ groups fuel (Numeral.ofNat n) ≠ [] := by
  induction fuel generalizing n with
  | zero => omega
  | succ fuel ih =>
    rw [groups, Numeral.divide_eq (Numeral.digits_ofNat n) (by decide), Numeral.val_ofNat, varintOfNat]
    simp only [Numeral.ofNat_eq_zero_iff]
    by_cases hn : n < 128
    · rw [if_pos (by omega), if_pos hn, Nat.mod_eq_of_lt hn]
      exact ⟨rfl, by simp⟩
    · have hpos : 0 < fuel := by
        rcases Nat.eq_zero_or_pos fuel with rfl | hpos
        · simp at h
          omega
        · exact hpos
      rw [pow_succ] at h
      obtain ⟨hmark, hne⟩ := ih (n := n / 128) (by omega) hpos
      rw [if_neg (by omega), if_neg hn]
      refine ⟨?_, by simp⟩
      cases hgroups : groups fuel (Numeral.ofNat (n / 128)) with
      | nil => exact absurd hgroups hne
      | cons g gs =>
        rw [hgroups] at hmark
        rw [markGroups, hmark]
        exact fun h => by simp at h

theorem varintOfNumeral_ofNat (n : Nat) : varintOfNumeral (Numeral.ofNat n) = varintOfNat n := by
  have hval := Numeral.val_lt_pow (Numeral.digits_ofNat n)
  rw [Numeral.val_ofNat] at hval
  have hpow : 10 ^ (Numeral.ofNat n).length ≤ 128 ^ ((Numeral.ofNat n).length + 4) :=
    le_trans (Nat.pow_le_pow_left (by decide) _) (Nat.pow_le_pow_right (by decide) (by omega))
  rw [varintOfNumeral, Numeral.trim_ofNat]
  exact (markGroups_groups (by omega) (by omega)).1

theorem varintOfInt_nonneg {n : Int} (h : 0 ≤ n) : varintOfInt n = varintOfNat n.toNat := by
  rw [varintOfInt, if_neg (by omega)]

/-- A 64-bit number is written and read back, whatever follows it. -/
theorem readVarint64_varintOfNat {n : Nat} (h : n < 0x10000000000000000) (rest : List UInt8) :
    readVarint64 (varintOfNat n ++ rest) = some (Numeral.ofNat n, rest) := by
  rw [readVarint64_append (isVarint_of_lt h), groupVal_varintOfNat, Nat.mod_eq_of_lt h]

/-- A tag or length is written and read back, whatever follows it. -/
theorem readVarint32_varintOfNat {n : Nat} (h : n < 0x100000000) (rest : List UInt8) :
    readVarint32 (varintOfNat n ++ rest) = some (n, rest) := by
  rw [readVarint32_append (isVarint_of_lt (by omega)), groupVal_varintOfNat, Nat.mod_eq_of_lt h]

end MessageCodec.Wire
