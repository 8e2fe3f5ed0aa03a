import Mathlib.Data.List.DropRight
import MessageCodec.Proofs.Numeral

/-!
# Views of a word

The signed, unsigned and ZigZag views of a word on texts are those on numbers. `ofInt` is the canonical
text of an integer; every conversion here takes canonical texts to canonical texts, so a chain of
conversions is a chain of functions on integers, and those are inverse to each other on their ranges.
-/

namespace MessageCodec

/-! ### Bytes, least significant first -/

namespace Word

@[simp] theorem length_toBytes (count n : Nat) : (toBytes count n).length = count := by
  induction count generalizing n with
  | zero => rfl
  | succ count ih => rw [toBytes, List.length_cons, ih]

theorem toNat_toUInt8 {n : Nat} (h : n < 256) : n.toUInt8.toNat = n := by
  rw [Nat.toUInt8, UInt8.toNat_ofNat']
  exact Nat.mod_eq_of_lt h

theorem ofBytes_cons (b : UInt8) (bs : List UInt8) : ofBytes (b :: bs) = b.toNat + 256 * ofBytes bs := rfl

theorem ofBytes_toBytes (count n : Nat) : ofBytes (toBytes count n) = n % 256 ^ count := by
  induction count generalizing n with
  | zero =>
    rw [pow_zero, Nat.mod_one]
    rfl
  | succ count ih =>
    rw [toBytes, ofBytes_cons, ih, toNat_toUInt8 (Nat.mod_lt _ (by decide)), pow_succ, Nat.mul_comm,
      Nat.mul_comm (256 ^ count) 256, Nat.mod_mul]
    ring

theorem ofBytes_lt (bs : List UInt8) : ofBytes bs < 256 ^ bs.length := by
  induction bs with
  | nil => decide
  | cons b bs ih =>
    have hb := b.toNat_lt
    rw [ofBytes_cons, List.length_cons, pow_succ]
    omega

end Word

/-! ### Trimmed texts -/

namespace Text

variable {p : Char → Bool} {cs : List Char}

theorem trimWhile_eq (p : Char → Bool) (cs : List Char) : trimWhile p cs = (cs.dropWhile p).rdropWhile p := rfl

theorem isInfix_trimWhile (p : Char → Bool) (cs : List Char) : trimWhile p cs <:+: cs :=
  (List.rdropWhile_prefix p (cs.dropWhile p)).isInfix.trans (List.dropWhile_suffix p).isInfix

theorem eq_false_of_getLast?_trimWhile {c : Char} (h : (trimWhile p cs).getLast? = some c) : p c = false := by
  rw [trimWhile, List.getLast?_reverse] at h
  have hhead := List.head?_dropWhile_not p (cs.dropWhile p).reverse
  rw [h] at hhead
  exact hhead

theorem eq_false_of_head?_trimWhile {c : Char} (h : (trimWhile p cs).head? = some c) : p c = false := by
  obtain ⟨rest, hrest⟩ := List.head?_eq_some_iff.1 h
  obtain ⟨more, hmore⟩ := List.rdropWhile_prefix p (cs.dropWhile p)
  have hhead := List.head?_dropWhile_not p cs
  rw [← hmore, ← trimWhile_eq, hrest] at hhead
  exact hhead

theorem trimWhile_eq_nil_iff : trimWhile p cs = [] ↔ ∀ c ∈ cs, p c = true := by
  rw [trimWhile_eq, List.rdropWhile_eq_nil_iff]
  constructor
  · intro h c hc
    rw [← List.takeWhile_append_dropWhile (p := p) (l := cs), List.mem_append] at hc
    rcases hc with hfront | hback
    · exact List.mem_takeWhile_imp hfront
    · exact h c hback
  · intro h c hc
    exact h c ((List.dropWhile_suffix p).subset hc)

theorem mem_trimWhile_of_mem {c : Char} (h : c ∈ cs) (hc : p c = false) : c ∈ trimWhile p cs := by
  have hother : ∀ ds : List Char, c ∈ ds → c ∈ ds.dropWhile p := by
    intro ds hmem
    rw [← List.takeWhile_append_dropWhile (p := p) (l := ds), List.mem_append] at hmem
    rcases hmem with hfront | hback
    · rw [List.mem_takeWhile_imp hfront] at hc
      cases hc
    · exact hback
  rw [trimWhile, List.mem_reverse]
  exact hother _ (List.mem_reverse.2 (hother cs h))

/-- What trimming takes away does not matter around a text. -/
theorem trimWhile_around {before after : List Char} (hbefore : ∀ c ∈ before, p c = true)
    (hafter : ∀ c ∈ after, p c = true) : trimWhile p (before ++ (cs ++ after)) = trimWhile p cs := by
  have hback : ∀ c ∈ after.reverse, p c = true := fun c hc => hafter c (List.mem_reverse.1 hc)
  have hempty : after.dropWhile p = [] := List.dropWhile_eq_nil_iff.2 hafter
  rw [trimWhile, trimWhile, List.dropWhile_append_of_pos hbefore, List.dropWhile_append]
  split
  · rename_i hcs
    rw [List.isEmpty_iff.1 hcs, hempty]
  · rw [List.reverse_append, List.dropWhile_append_of_pos hback]

/-- Trimming takes away what is around a text with ends that stay. -/
theorem trimWhile_padded {before after : List Char} (hbefore : ∀ c ∈ before, p c = true)
    (hafter : ∀ c ∈ after, p c = true) (hhead : ∀ c ∈ cs.head?, p c = false) (hlast : ∀ c ∈ cs.getLast?, p c = false)
    (hne : cs ≠ []) : trimWhile p (before ++ (cs ++ after)) = cs := by
  have hstays : ∀ ds : List Char, ds ≠ [] → (∀ d ∈ ds.head?, p d = false) → ds.dropWhile p = ds := by
    intro ds hdsne hds
    obtain ⟨d, rest, rfl⟩ := List.exists_cons_of_ne_nil hdsne
    rw [List.dropWhile_cons_of_neg (by simp [hds d rfl])]
  rw [trimWhile_around hbefore hafter, trimWhile, hstays cs hne hhead,
    hstays cs.reverse (by simpa using hne) (by rwa [List.head?_reverse]), List.reverse_reverse]

end Text

namespace Numeral

theorem toBytes_ofNat (n count : Nat) : toBytes (ofNat n) count = Word.toBytes count n := by
  induction count generalizing n with
  | zero => rfl
  | succ count ih =>
    rw [toBytes, divide_eq (digits_ofNat n) (by decide), val_ofNat]
    exact congrArg _ (ih (n / 256))

theorem ofBytes_eq (bs : List UInt8) : ofBytes bs = ofNat (Word.ofBytes bs) := by
  induction bs with
  | nil => exact ofNat_zero.symm
  | cons b bs ih =>
    rw [Word.ofBytes_cons, ofBytes, List.foldr_cons, ← ofBytes, ih, multiply_eq (digits_ofNat _),
      add_eq (digits_ofNat _) (digits_ofNat _), val_ofNat, val_ofNat, val_ofNat]
    congr 1
    rw [Nat.add_comm, Nat.mul_comm]
    rfl

/-! ### Texts of integers -/

theorem ofInt_natCast (n : Nat) : ofInt (n : Int) = ofNat n := by
  rw [ofInt, if_neg (by omega), Int.toNat_natCast]

theorem ofInt_neg {n : Int} (h : n < 0) : ofInt n = '-' :: ofNat n.natAbs := by
  rw [ofInt, if_pos h]

theorem ofInt_nonneg {n : Int} (h : 0 ≤ n) : ofInt n = ofNat n.toNat := by
  rw [ofInt, if_neg (by omega)]

theorem ofInt_eq_zero_iff {n : Int} : ofInt n = ['0'] ↔ n = 0 := by
  by_cases h : n < 0
  · rw [ofInt_neg h]
    constructor
    · intro heq
      exact absurd (List.cons.inj heq).1 (by decide)
    · omega
  · rw [ofInt_nonneg (by omega), ofNat_eq_zero_iff]
    omega

theorem ofNat_ne_minus (n : Nat) (rest : List Char) : ofNat n ≠ '-' :: rest := by
  intro h
  have hdigit : isDigit '-' = true := digits_ofNat n '-' (by rw [h]; exact List.mem_cons_self)
  exact absurd hdigit (by decide)

theorem ofInt_injective {m n : Int} (h : ofInt m = ofInt n) : m = n := by
  by_cases hm : m < 0 <;> by_cases hn : n < 0
  · rw [ofInt_neg hm, ofInt_neg hn] at h
    have := ofNat_injective (List.cons.inj h).2
    omega
  · rw [ofInt_neg hm, ofInt_nonneg (by omega)] at h
    exact absurd h.symm (ofNat_ne_minus _ _)
  · rw [ofInt_nonneg (by omega), ofInt_neg hn] at h
    exact absurd h (ofNat_ne_minus _ _)
  · rw [ofInt_nonneg (by omega), ofInt_nonneg (by omega)] at h
    have := ofNat_injective h
    omega

theorem isBlank_eq_false_of_isDigit {c : Char} (h : isDigit c = true) : Text.isBlank c = false := by
  obtain ⟨hlow, hhigh⟩ := isDigit_iff.1 h
  simp only [Text.isBlank, Text.Ranges.contains, Text.blankRanges, List.any_cons, List.any_nil,
    Bool.or_false, Bool.or_eq_false_iff, Bool.and_eq_false_iff, decide_eq_false_iff_not]
  omega

private theorem dropWhile_isBlank {cs : List Char} (h : ∀ c ∈ cs, Text.isBlank c = false) :
    cs.dropWhile Text.isBlank = cs := by
  cases cs with
  | nil => rfl
  | cons d ds => rw [List.dropWhile_cons_of_neg (by simp [h d])]

theorem trim_of_no_blank {cs : List Char} (h : ∀ c ∈ cs, Text.isBlank c = false) : Text.trim cs = cs := by
  rw [Text.trim, Text.trimWhile, dropWhile_isBlank h, dropWhile_isBlank fun c hc => h c (List.mem_reverse.1 hc),
    List.reverse_reverse]

/-- Trimming takes away what is blank around a text without blanks. -/
theorem trim_padded {before cs after : List Char} (hbefore : ∀ c ∈ before, Text.isBlank c = true)
    (hafter : ∀ c ∈ after, Text.isBlank c = true) (hcs : ∀ c ∈ cs, Text.isBlank c = false) (hne : cs ≠ []) :
    Text.trim (before ++ (cs ++ after)) = cs := by
  apply Text.trimWhile_padded hbefore hafter _ _ hne
  · exact fun c hc => hcs c (List.mem_of_mem_head? hc)
  · exact fun c hc => hcs c (List.mem_of_getLast? hc)

private theorem no_blank_ofInt (n : Int) : ∀ c ∈ ofInt n, Text.isBlank c = false := by
  intro c hc
  by_cases h : n < 0
  · rw [ofInt_neg h] at hc
    rcases List.mem_cons.1 hc with rfl | hc
    · decide
    · exact isBlank_eq_false_of_isDigit (digits_ofNat _ c hc)
  · rw [ofInt_nonneg (by omega)] at hc
    exact isBlank_eq_false_of_isDigit (digits_ofNat _ c hc)

@[simp] theorem textTrim_ofInt (n : Int) : Text.trim (ofInt n) = ofInt n :=
  trim_of_no_blank (no_blank_ofInt n)

theorem signed?_of_digits {cs : List Char} (h : Digits cs) (hne : cs ≠ []) : signed? cs = some (false, cs) := by
  have hall : cs.all isDigit = true := List.all_eq_true.2 h
  unfold signed?
  split
  rename_i negative digits heq
  split at heq
  · exact absurd (h '-' List.mem_cons_self) (by decide)
  · exact absurd (h '+' List.mem_cons_self) (by decide)
  · obtain ⟨rfl, rfl⟩ := Prod.mk.inj heq
    simp [hne, hall]

theorem signed?_ofInt (n : Int) : signed? (ofInt n) = some (decide (n < 0), ofNat n.natAbs) := by
  by_cases h : n < 0
  · have hall : (ofNat n.natAbs).all isDigit = true := List.all_eq_true.2 (digits_ofNat _)
    have hne := ofNat_ne_nil n.natAbs
    rw [ofInt_neg h]
    simp [signed?, hne, hall, h]
  · rw [ofInt_nonneg (by omega), signed?_of_digits (digits_ofNat _) (ofNat_ne_nil _)]
    simp only [h, decide_false, Option.some.injEq, Prod.mk.injEq, true_and]
    congr 1
    omega

/-- A signed run of digits denotes an integer, and its canonical text drops plus signs and leading
zeros. -/
theorem signed?_digits {cs : List Char} {negative : Bool} {digits : Numeral}
    (h : signed? cs = some (negative, digits)) : Digits digits ∧ digits ≠ [] := by
  unfold signed? at h
  split at h
  rename_i sign rest _
  split at h
  · simp at h
  · rename_i hne
    split at h
    · rename_i hall
      obtain ⟨_, rfl⟩ := Prod.mk.inj (Option.some.inj h)
      exact ⟨List.all_eq_true.1 hall, by simpa using hne⟩
    · simp at h

theorem no_blank_of_signed? {cs : List Char} {found : Bool × Numeral} (h : signed? cs = some found) :
    ∀ c ∈ cs, Text.isBlank c = false := by
  have hdigits {ds : List Char} (hds : ds.all isDigit = true) : ∀ c ∈ ds, Text.isBlank c = false :=
    fun c hc => isBlank_eq_false_of_isDigit (List.all_eq_true.1 hds c hc)
  unfold signed? at h
  split at h
  rename_i negative digits hsign
  split at h
  · cases h
  split at h
  · rename_i hall
    split at hsign
    · obtain ⟨-, rfl⟩ := Prod.mk.inj hsign
      exact List.forall_mem_cons.2 ⟨by decide, hdigits hall⟩
    · obtain ⟨-, rfl⟩ := Prod.mk.inj hsign
      exact List.forall_mem_cons.2 ⟨by decide, hdigits hall⟩
    · obtain ⟨-, rfl⟩ := Prod.mk.inj hsign
      exact hdigits hall
  · cases h

theorem signedVal_ofInt (n : Int) : signedVal (decide (n < 0)) (ofNat n.natAbs) = n := by
  by_cases h : n < 0
  · rw [signedVal, if_pos (by simpa using h), val_ofNat]
    omega
  · rw [signedVal, if_neg (by simpa using h), val_ofNat]
    omega

@[simp] theorem integerOrZero_ofNat (n : Nat) : integerOrZero (ofNat n) = n := by
  rw [← ofInt_natCast, integerOrZero, textTrim_ofInt, signed?_ofInt]
  exact signedVal_ofInt n

/-! ### 64-bit views -/

theorem int64Max_eq : int64Max = ofNat 0x7fffffffffffffff := by
  have hval : val int64Max = 0x7fffffffffffffff := by decide
  rw [← hval, ofNat_val_of_head (List.all_eq_true.1 (by decide)) (by decide) (by decide)]

theorem uint64Modulus_eq : uint64Modulus = ofNat 0x10000000000000000 := by
  have hval : val uint64Modulus = 0x10000000000000000 := by decide
  rw [← hval, ofNat_val_of_head (List.all_eq_true.1 (by decide)) (by decide) (by decide)]

theorem int32Max_eq : int32Max = ofNat 0x7fffffff := by
  have hval : val int32Max = 0x7fffffff := by decide
  rw [← hval, ofNat_val_of_head (List.all_eq_true.1 (by decide)) (by decide) (by decide)]

theorem uint32Max_eq : uint32Max = ofNat 0xffffffff := by
  have hval : val uint32Max = 0xffffffff := by decide
  rw [← hval, ofNat_val_of_head (List.all_eq_true.1 (by decide)) (by decide) (by decide)]

end Numeral

namespace Word

/-- The unsigned 64-bit view of an integer, zero for an integer that has none. -/
def unsigned64 (n : Int) : Nat :=
  if -0x8000000000000000 ≤ n ∧ n < 0x10000000000000000 then (n % 0x10000000000000000).toNat else 0

def signed64 (u : Nat) : Int := if u < 0x8000000000000000 then u else (u : Int) - 0x10000000000000000

/-- The ZigZag form of an integer as a 64-bit number, zero where it does not fit. -/
def zigzag64 (n : Int) : Nat :=
  if encodeZigzag32 n < 0x10000000000000000 then (encodeZigzag32 n).toNat else 0

theorem unsigned64_lt (n : Int) : unsigned64 n < 0x10000000000000000 := by
  unfold unsigned64
  split <;> omega

theorem signed64_mem {u : Nat} (h : u < 0x10000000000000000) :
    -0x8000000000000000 ≤ signed64 u ∧ signed64 u < 0x8000000000000000 := by
  unfold signed64
  split <;> omega

theorem unsigned64_signed64 {u : Nat} (h : u < 0x10000000000000000) : unsigned64 (signed64 u) = u := by
  unfold signed64 unsigned64
  split <;> split <;> omega

theorem signed64_unsigned64 {n : Int} (hlow : -0x8000000000000000 ≤ n) (hhigh : n < 0x8000000000000000) :
    signed64 (unsigned64 n) = n := by
  unfold signed64 unsigned64
  split <;> split at * <;> omega

theorem unsigned64_of_lt {u : Nat} (h : u < 0x10000000000000000) : unsigned64 u = u := by
  unfold unsigned64
  split <;> omega

theorem zigzag64_lt (n : Int) : zigzag64 n < 0x10000000000000000 := by
  unfold zigzag64 encodeZigzag32
  split <;> split at * <;> omega

theorem unzigzag_zigzag64 {n : Int} (hlow : -0x8000000000000000 ≤ n) (hhigh : n < 0x8000000000000000) :
    unzigzag (zigzag64 n) = n := by
  unfold unzigzag zigzag64 encodeZigzag32
  split <;> split at * <;> split at * <;> omega

theorem unzigzag_mem {u : Nat} (h : u < 0x10000000000000000) :
    -0x8000000000000000 ≤ unzigzag u ∧ unzigzag u < 0x8000000000000000 := by
  unfold unzigzag
  split <;> omega

theorem zigzag64_unzigzag {u : Nat} (h : u < 0x10000000000000000) : zigzag64 (unzigzag u) = u := by
  unfold unzigzag zigzag64 encodeZigzag32
  split <;> split at * <;> split at * <;> omega

end Word

namespace Numeral

private theorem toUnsigned64_ofNat (n : Nat) : toUnsigned64 (ofNat n) = ofNat (Word.unsigned64 n) := by
  have hmatch : toUnsigned64 (ofNat n)
      = if compare (trim (ofNat n)) uint64Modulus = .lt then trim (ofNat n) else ['0'] := by
    unfold toUnsigned64
    split
    · exact absurd ‹_› (ofNat_ne_minus _ _)
    · rfl
  rw [hmatch, trim_ofNat, uint64Modulus_eq, compare_ofNat]
  by_cases h : n < 0x10000000000000000
  · rw [if_pos (Nat.compare_eq_lt.2 h), Word.unsigned64_of_lt h]
  · rw [if_neg (fun hc => h (Nat.compare_eq_lt.1 hc)), ← ofNat_zero, Word.unsigned64, if_neg (by omega)]

theorem toUnsigned64_ofInt (n : Int) : toUnsigned64 (ofInt n) = ofNat (Word.unsigned64 n) := by
  by_cases h : n < 0
  · rw [ofInt_neg h, toUnsigned64, trim_ofNat, int64Max_eq, uint64Modulus_eq,
      add_eq (digits_ofNat _) (digits_singleton (by decide)), val_ofNat,
      subtract_eq (digits_ofNat _) (digits_ofNat _), val_ofNat, val_ofNat, compare_ofNat]
    have hone : val ['1'] = 1 := rfl
    rw [hone, Word.unsigned64]
    by_cases hfit : -0x8000000000000000 ≤ n
    · rw [if_neg (by rw [Nat.compare_eq_gt]; omega), if_pos (by omega)]
      congr 1
      omega
    · rw [if_pos (by rw [Nat.compare_eq_gt]; omega), if_neg (by omega), ofNat_zero]
  · rw [ofInt_nonneg (by omega), toUnsigned64_ofNat, show ((n.toNat : Nat) : Int) = n by omega]

theorem toSigned64_ofNat {u : Nat} (h : u < 0x10000000000000000) :
    toSigned64 (ofNat u) = ofInt (Word.signed64 u) := by
  rw [toSigned64, trim_ofNat, int64Max_eq, compare_ofNat, uint64Modulus_eq,
    subtract_eq (digits_ofNat _) (digits_ofNat _), val_ofNat, val_ofNat, Word.signed64]
  by_cases hbig : u < 0x8000000000000000
  · rw [if_neg (by rw [Nat.compare_eq_gt]; omega), if_pos hbig, ofInt_natCast]
  · have hmagnitude : ¬ ofNat (0x10000000000000000 - u) = ['0'] := by
      rw [ofNat_eq_zero_iff]
      omega
    rw [if_pos (by rw [Nat.compare_eq_gt]; omega), if_neg hbig, if_neg hmagnitude, ofInt_neg (by omega)]
    congr 2
    omega

theorem encodeZigzag64_ofInt (n : Int) : encodeZigzag64 (ofInt n) = ofNat (Word.zigzag64 n) := by
  have htwo : Int.toNat 2 = 2 := rfl
  have hone : val ['1'] = 1 := rfl
  have hpos : 0 ≤ Word.encodeZigzag32 n := by
    unfold Word.encodeZigzag32
    split <;> omega
  have hencoded : encodeZigzag64 (ofInt n)
      = if compare (ofNat (Word.encodeZigzag32 n).toNat) uint64Modulus = .lt
        then ofNat (Word.encodeZigzag32 n).toNat else ['0'] := by
    by_cases h : n < 0
    · have hsum : subtract (multiply (trim (ofNat n.natAbs)) 2) ['1'] = ofNat (Word.encodeZigzag32 n).toNat := by
        rw [trim_ofNat, multiply_eq (digits_ofNat _), val_ofNat,
          subtract_eq (digits_ofNat _) (digits_singleton (by decide)), val_ofNat, Word.encodeZigzag32,
          if_neg (by omega), htwo, hone]
        congr 1
        omega
      rw [ofInt_neg h, encodeZigzag64]
      simp only [hsum]
    · have hdouble : multiply (ofNat n.toNat) 2 = ofNat (Word.encodeZigzag32 n).toNat := by
        rw [multiply_eq (digits_ofNat _), val_ofNat, Word.encodeZigzag32, if_pos (by omega), htwo]
        congr 1
        omega
      rw [ofInt_nonneg (by omega), encodeZigzag64, hdouble]
      exact fun rest hminus => ofNat_ne_minus _ rest hminus
  rw [hencoded, uint64Modulus_eq, compare_ofNat, Word.zigzag64]
  by_cases h : Word.encodeZigzag32 n < 0x10000000000000000
  · rw [if_pos (by rw [Nat.compare_eq_lt]; omega), if_pos h]
  · rw [if_neg (by rw [Nat.compare_eq_lt]; omega), if_neg h, ofNat_zero]

theorem decodeZigzag64_ofNat (u : Nat) : decodeZigzag64 (ofNat u) = ofInt (Word.unzigzag u) := by
  rw [decodeZigzag64, trim_ofNat, divide_eq (digits_ofNat u) (by decide),
    add_eq (digits_ofNat u) (digits_singleton (by decide)), divide_eq (digits_ofNat _) (by decide),
    val_ofNat, val_ofNat, Word.unzigzag]
  have hone : val ['1'] = 1 := rfl
  rw [hone]
  by_cases h : u % 2 = 0
  · rw [if_pos (by omega), ofInt_nonneg (by omega)]
    simp only [h, if_true]
    congr 1
  · rw [if_neg (by omega), ofInt_neg (by omega)]
    simp only [h, if_false]
    congr 2
    omega

end Numeral

/-! ### 32-bit views -/

namespace Word

theorem ofBytes_numeral (u : Nat) : ofBytes (Numeral.toBytes (Numeral.ofNat u) 4) = u % 0x100000000 := by
  rw [Numeral.toBytes_ofNat, ofBytes_toBytes]
  rfl

theorem unsigned32OfNumeral_ofNat (u : Nat) :
    unsigned32OfNumeral (Numeral.ofNat u) = ((u % 0x100000000 : Nat) : Int) := by
  rw [unsigned32OfNumeral, Numeral.trim_ofNat, Numeral.uint32Max_eq, Numeral.compare_ofNat,
    ofBytes_numeral, Numeral.integerOrZero_ofNat]
  split
  · rfl
  · rename_i h
    rw [Nat.compare_eq_gt] at h
    omega

theorem signed32OfNumeral_ofNat (u : Nat) : signed32OfNumeral (Numeral.ofNat u) = signed32 u := by
  rw [signed32OfNumeral, Numeral.trim_ofNat, Numeral.int32Max_eq, Numeral.compare_ofNat,
    ofBytes_numeral, Numeral.integerOrZero_ofNat]
  split
  · simp only [signed32]
    rw [Nat.mod_mod]
  · rename_i h
    rw [Nat.compare_eq_gt] at h
    simp only [signed32]
    split <;> omega

theorem decodeZigzag32OfNumeral_ofNat (u : Nat) :
    decodeZigzag32OfNumeral (Numeral.ofNat u) = unzigzag ((u % 0x100000000 : Nat) : Int) := by
  rw [decodeZigzag32OfNumeral, unsigned32OfNumeral_ofNat]

theorem signed32_mem (u : Nat) : -0x80000000 ≤ signed32 u ∧ signed32 u < 0x80000000 := by
  simp only [signed32]
  split <;> omega

/-- Sign extension to 64 bits loses nothing of a 32-bit number. -/
theorem signed32_unsigned64 {n : Int} (hlow : -0x80000000 ≤ n) (hhigh : n < 0x80000000) :
    signed32 (unsigned64 n) = n := by
  simp only [signed32, unsigned64]
  split <;> split at * <;> omega

theorem signed32_ofBytes_toBytes {n : Int} (hlow : -0x80000000 ≤ n) (hhigh : n < 0x80000000) :
    signed32 (ofBytes (toBytes 4 (n % 0x100000000).toNat)) = n := by
  rw [ofBytes_toBytes]
  simp only [signed32]
  split <;> omega

theorem toSigned32_mem {n : Int} (hlow : -0x80000000 ≤ n) (hhigh : n < 0x100000000) :
    -0x80000000 ≤ toSigned32 n ∧ toSigned32 n < 0x80000000 := by
  simp only [toSigned32, toUnsigned32]
  split <;> split at * <;> omega

theorem toSigned32_of_mem {n : Int} (hlow : -0x80000000 ≤ n) (hhigh : n < 0x80000000) : toSigned32 n = n := by
  simp only [toSigned32, toUnsigned32]
  split <;> split at * <;> omega

theorem toUnsigned32_mem {n : Int} (hlow : -0x80000000 ≤ n) (hhigh : n < 0x100000000) :
    0 ≤ toUnsigned32 n ∧ toUnsigned32 n < 0x100000000 := by
  simp only [toUnsigned32]
  split <;> omega

theorem encodeZigzag32_mem {n : Int} (hlow : -0x80000000 ≤ n) (hhigh : n < 0x80000000) :
    0 ≤ encodeZigzag32 n ∧ encodeZigzag32 n < 0x100000000 := by
  unfold encodeZigzag32
  split <;> omega

theorem unzigzag_encodeZigzag32 (n : Int) : unzigzag (encodeZigzag32 n) = n := by
  unfold unzigzag encodeZigzag32
  split <;> split at * <;> omega

theorem unzigzag32_mem (u : Nat) :
    -0x80000000 ≤ unzigzag ((u % 0x100000000 : Nat) : Int) ∧
      unzigzag ((u % 0x100000000 : Nat) : Int) < 0x80000000 := by
  unfold unzigzag
  split <;> omega

end Word

end MessageCodec
