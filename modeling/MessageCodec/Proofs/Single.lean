import Mathlib.Tactic
import Mathlib.Data.Rat.Cast.Order
import MessageCodec.Number.Binary

/-!
# Singles among doubles

Rounding to a format gives back exactly a value that the format has. Every single is also a double, so
a single read as a double is written as the same single: only the quiet bit of a NaN may be added, and
the double that is read is the same one the second time.
-/

namespace MessageCodec

theorem twoPow_eq (n : Nat) : twoPow n = 2 ^ n := rfl

namespace BinaryFormat

variable (f : BinaryFormat)

/-! ### The parts of a pattern -/

theorem pack_eq (negative : Bool) (field fraction : Nat) :
    f.pack negative field fraction =
      2 ^ f.fractionBits * (2 ^ f.exponentBits * (if negative then 1 else 0) + field) + fraction := by
  rw [pack, twoPow_eq, twoPow_eq, Nat.pow_add]
  cases negative
  · simp only [Bool.false_eq_true, if_false]
    ring
  · simp only [if_true]
    ring

variable {f}

theorem fraction_pack {negative : Bool} {field fraction : Nat} (hx : fraction < 2 ^ f.fractionBits) :
    f.fraction (f.pack negative field fraction) = fraction := by
  rw [BinaryFormat.fraction, pack_eq, twoPow_eq, Nat.mul_add_mod_self_left, Nat.mod_eq_of_lt hx]

theorem pack_div {negative : Bool} {field fraction : Nat} (hx : fraction < 2 ^ f.fractionBits) :
    f.pack negative field fraction / 2 ^ f.fractionBits =
      2 ^ f.exponentBits * (if negative then 1 else 0) + field := by
  rw [pack_eq, Nat.mul_add_div (by positivity), Nat.div_eq_of_lt hx, Nat.add_zero]

theorem field_pack {negative : Bool} {field fraction : Nat} (hx : fraction < 2 ^ f.fractionBits)
    (hf : field < 2 ^ f.exponentBits) : f.field (f.pack negative field fraction) = field := by
  rw [BinaryFormat.field, twoPow_eq, twoPow_eq, pack_div hx, Nat.mul_add_mod_self_left,
    Nat.mod_eq_of_lt hf]

theorem negative_pack {negative : Bool} {field fraction : Nat} (hx : fraction < 2 ^ f.fractionBits)
    (hf : field < 2 ^ f.exponentBits) : f.negative (f.pack negative field fraction) = negative := by
  rw [BinaryFormat.negative, twoPow_eq, Nat.add_comm, Nat.pow_add, ← Nat.div_div_eq_div_mul, pack_div hx,
    Nat.mul_add_div (by positivity), Nat.div_eq_of_lt hf]
  cases negative <;> rfl

theorem pack_lt (negative : Bool) {field fraction : Nat} (hx : fraction < 2 ^ f.fractionBits)
    (hf : field < 2 ^ f.exponentBits) :
    f.pack negative field fraction < 2 ^ (f.fractionBits + f.exponentBits + 1) := by
  rw [pack_eq, Nat.add_assoc, Nat.pow_add, Nat.pow_succ]
  have hsign : 2 ^ f.exponentBits * (if negative then 1 else 0) + field < 2 ^ f.exponentBits * 2 := by
    cases negative
    · simp only [Bool.false_eq_true, if_false]
      omega
    · simp only [if_true]
      omega
  calc _ < 2 ^ f.fractionBits * (2 ^ f.exponentBits * (if negative then 1 else 0) + field + 1) := by
        rw [Nat.mul_add _ _ 1]
        omega
    _ ≤ _ := Nat.mul_le_mul_left _ hsign

theorem fraction_lt (bits : Nat) : f.fraction bits < 2 ^ f.fractionBits :=
  Nat.mod_lt _ (Nat.two_pow_pos _)

theorem field_lt (bits : Nat) : f.field bits < 2 ^ f.exponentBits :=
  Nat.mod_lt _ (Nat.two_pow_pos _)

/-- A pattern is put together from its parts. -/
theorem pack_parts {bits : Nat} (h : bits < 2 ^ (f.fractionBits + f.exponentBits + 1)) :
    f.pack (f.negative bits) (f.field bits) (f.fraction bits) = bits := by
  have hsign : (if f.negative bits then 1 else 0) = bits / 2 ^ f.fractionBits / 2 ^ f.exponentBits := by
    have hle : bits / 2 ^ f.fractionBits / 2 ^ f.exponentBits < 2 := by
      rw [Nat.div_div_eq_div_mul, Nat.div_lt_iff_lt_mul (by positivity), ← Nat.pow_add]
      rw [Nat.pow_succ] at h
      omega
    rw [BinaryFormat.negative, twoPow_eq, Nat.add_comm, Nat.pow_add, ← Nat.div_div_eq_div_mul]
    generalize bits / 2 ^ f.fractionBits / 2 ^ f.exponentBits = sign at hle ⊢
    interval_cases sign <;> rfl
  rw [pack_eq, hsign, BinaryFormat.field, BinaryFormat.fraction, twoPow_eq, twoPow_eq, Nat.div_add_mod,
    Nat.div_add_mod]

/-! ### Rounding a value that the format has -/

theorem roundDiv_mul (m : Nat) {den : Nat} (h : 0 < den) : roundDiv (m * den) den = m := by
  rw [roundDiv, Nat.mul_div_cancel _ h, Nat.mul_mod_left]
  simp only [Nat.mul_zero, h, if_true]

theorem inUnits_pos (num : Nat) {den : Nat} (q : Int) (h : 0 < den) : 0 < (inUnits num den q).2 := by
  unfold inUnits
  split
  · exact Nat.mul_pos h (by rw [twoPow_eq]; positivity)
  · exact h

/-- Units divide a quotient by a power of two. -/
theorem inUnits_div (num : Nat) {den : Nat} (q : Int) (h : 0 < den) :
    ((inUnits num den q).1 : ℚ) / (inUnits num den q).2 = (num : ℚ) / den / 2 ^ q := by
  have hden : (den : ℚ) ≠ 0 := by positivity
  unfold inUnits
  split
  · rename_i hq
    obtain ⟨n, rfl⟩ := Int.eq_ofNat_of_zero_le hq
    simp only [Int.toNat_natCast, twoPow_eq, zpow_natCast]
    push_cast
    rw [div_div]
  · rename_i hq
    obtain ⟨n, hn⟩ := Int.eq_ofNat_of_zero_le (show 0 ≤ -q by omega)
    obtain rfl : q = -(n : Int) := by omega
    simp only [neg_neg, Int.toNat_natCast, twoPow_eq, zpow_neg, zpow_natCast, div_inv_eq_mul]
    push_cast
    ring

theorem inUnits_exact {num den m : Nat} {q : Int} (h : 0 < den) (hv : (num : ℚ) / den = m * 2 ^ q) :
    (inUnits num den q).1 = m * (inUnits num den q).2 := by
  have hb : ((inUnits num den q).2 : ℚ) ≠ 0 := by
    have := inUnits_pos num q h
    positivity
  have hdiv := inUnits_div num q h
  rw [hv, mul_div_assoc, div_self (by positivity), mul_one, div_eq_iff hb] at hdiv
  exact_mod_cast hdiv

theorem log2_le_cast {n : Nat} (hn : n ≠ 0) : (2 : ℚ) ^ (Nat.log2 n : Int) ≤ n := by
  rw [zpow_natCast]
  exact_mod_cast Nat.log2_self_le hn

theorem cast_lt_log2 (n : Nat) : (n : ℚ) < 2 ^ ((Nat.log2 n : Int) + 1) := by
  rw [show (Nat.log2 n : Int) + 1 = ((Nat.log2 n + 1 : Nat) : Int) by push_cast; rfl, zpow_natCast]
  exact_mod_cast Nat.lt_log2_self

/-- The place of the first digit of a quotient by a power of two. -/
theorem log2_of_ratio {num k m : Nat} {q : Int} (hnum : num ≠ 0) (hm : m ≠ 0)
    (hv : (num : ℚ) / (2 ^ k : Nat) = m * 2 ^ q) : (Nat.log2 num : Int) = Nat.log2 m + q + k := by
  have htwo : (1 : ℚ) < 2 := by norm_num
  have hval : (num : ℚ) = m * 2 ^ (q + k) := by
    rw [div_eq_iff (by positivity)] at hv
    rw [hv, zpow_add₀ (by norm_num), zpow_natCast]
    push_cast
    ring
  have hupper : (2 : ℚ) ^ (Nat.log2 num : Int) < 2 ^ ((Nat.log2 m : Int) + 1 + (q + k)) := by
    rw [zpow_add₀ (by norm_num) _ (q + k)]
    calc _ ≤ (num : ℚ) := log2_le_cast hnum
      _ = m * 2 ^ (q + k) := hval
      _ < _ := mul_lt_mul_of_pos_right (cast_lt_log2 m) (by positivity)
  have hlower : (2 : ℚ) ^ ((Nat.log2 m : Int) + (q + k)) < 2 ^ ((Nat.log2 num : Int) + 1) := by
    rw [zpow_add₀ (by norm_num) _ (q + k)]
    calc _ ≤ (m : ℚ) * 2 ^ (q + k) := mul_le_mul_of_nonneg_right (log2_le_cast hm) (by positivity)
      _ = num := hval.symm
      _ < _ := cast_lt_log2 num
  rw [zpow_lt_zpow_iff_right₀ htwo] at hupper hlower
  omega

variable (f) in
/-- The integer and the power of two by which a format writes one of its finite values. -/
structure IsValue (m : Nat) (q : Int) : Prop where
  lt : m < 2 ^ (f.fractionBits + 1)
  least_le : f.leastExponent ≤ q
  normal_or_least : 2 ^ f.fractionBits ≤ m ∨ q = f.leastExponent
  below_top : (q - f.leastExponent).toNat + 1 < f.topField

variable (f) in
def valuePattern (negative : Bool) (m : Nat) (q : Int) : Nat :=
  if m < 2 ^ f.fractionBits then f.pack negative 0 m
  else f.pack negative ((q - f.leastExponent).toNat + 1) (m - 2 ^ f.fractionBits)

private theorem two_pow_le_units {num k : Nat} (hnum : num ≠ 0) {p : Nat} {q : Int}
    (hq : (Nat.log2 num : Int) - k - p = q) :
    2 ^ p ≤ (inUnits num (2 ^ k) q).1 / (inUnits num (2 ^ k) q).2 := by
  have hb := inUnits_pos num q (Nat.two_pow_pos k)
  have hb' : (0 : ℚ) < (inUnits num (2 ^ k) q).2 := by exact_mod_cast hb
  rw [Nat.le_div_iff_mul_le hb]
  have hle : ((2 : ℚ) ^ p) ≤ (inUnits num (2 ^ k) q).1 / (inUnits num (2 ^ k) q).2 := by
    rw [inUnits_div _ q (Nat.two_pow_pos k), le_div_iff₀ (by positivity),
      le_div_iff₀ (by positivity)]
    calc (2 : ℚ) ^ p * 2 ^ q * ((2 ^ k : Nat) : ℚ) = 2 ^ (Nat.log2 num : Int) := by
          rw [show (Nat.log2 num : Int) = p + q + k by omega, zpow_add₀ (by norm_num),
            zpow_add₀ (by norm_num), zpow_natCast, zpow_natCast]
          push_cast
          rfl
      _ ≤ num := log2_le_cast hnum
  rw [le_div_iff₀ hb'] at hle
  exact_mod_cast hle

/-- The unit of a value that the format has is the exponent it is written with. -/
theorem unitFor_exact {num k m : Nat} {q : Int} (hnum : num ≠ 0) (hm : m ≠ 0)
    (hv : (num : ℚ) / (2 ^ k : Nat) = m * 2 ^ q) (h : f.IsValue m q) : f.unitFor num (2 ^ k) = q := by
  have hlog := log2_of_ratio hnum hm hv
  have hunits := two_pow_le_units (k := k) (p := f.fractionBits + 1) hnum rfl
  unfold unitFor
  simp only [twoPow_eq, Nat.log2_two_pow]
  rw [show (Nat.log2 num : Int) - k - f.fractionBits - 1 = Nat.log2 num - k - (f.fractionBits + 1 : Nat) by
    push_cast; omega, if_pos hunits]
  have hle : Nat.log2 m < f.fractionBits + 1 := (Nat.log2_lt hm).2 h.lt
  have hleast := h.least_le
  rcases h.normal_or_least with hnormal | hq
  · have hge : f.fractionBits ≤ Nat.log2 m := (Nat.le_log2 hm).2 hnormal
    push_cast
    omega
  · push_cast
    omega

private theorem valuePattern_zero (negative : Bool) (q : Int) : f.valuePattern negative 0 q = f.pack negative 0 0 :=
  if_pos (Nat.two_pow_pos _)

/-- A value that the format has is not rounded. -/
theorem ofRatio_exact (negative : Bool) {num k m : Nat} {q : Int}
    (hv : (num : ℚ) / (2 ^ k : Nat) = m * 2 ^ q) (h : f.IsValue m q) :
    f.ofRatio negative num (2 ^ k) = f.valuePattern negative m q := by
  have hiff : num = 0 ↔ m = 0 := by
    have hpow : (2 : ℚ) ^ q ≠ 0 := by positivity
    have hzero : (num : ℚ) / (2 ^ k : Nat) = 0 ↔ (m : ℚ) * 2 ^ q = 0 := by rw [hv]
    simpa [hpow] using hzero
  by_cases hm : m = 0
  · rw [hm, valuePattern_zero, ofRatio, if_pos (hiff.2 hm)]
  have hnum : num ≠ 0 := fun hnum => hm (hiff.1 hnum)
  have hround : roundDiv (inUnits num (2 ^ k) q).1 (inUnits num (2 ^ k) q).2 = m := by
    rw [inUnits_exact (Nat.two_pow_pos k) hv, roundDiv_mul m (inUnits_pos _ q (Nat.two_pow_pos k))]
  have hlt := h.lt
  have htop := h.below_top
  unfold ofRatio valuePattern
  simp only [hnum, if_false, unitFor_exact hnum hm hv h, hround, twoPow_eq,
    show m ≠ 2 ^ (f.fractionBits + 1) by omega, show ¬ f.topField ≤ (q - f.leastExponent).toNat + 1 by omega]

/-- The same for a value given as an integer times a power of two. -/
theorem ofRatio_scaled (negative : Bool) {n m : Nat} {p q : Int}
    (hv : (n : ℚ) * 2 ^ p = m * 2 ^ q) (h : f.IsValue m q) :
    (if 0 ≤ p then f.ofRatio negative (n * twoPow p.toNat) 1
      else f.ofRatio negative n (twoPow (-p).toNat)) = f.valuePattern negative m q := by
  split
  · rename_i hp
    obtain ⟨k, rfl⟩ := Int.eq_ofNat_of_zero_le hp
    refine ofRatio_exact (k := 0) negative ?_ h
    rw [← hv, Int.toNat_natCast, twoPow_eq, zpow_natCast]
    push_cast
    ring
  · rename_i hp
    obtain ⟨k, hk⟩ := Int.eq_ofNat_of_zero_le (show 0 ≤ -p by omega)
    obtain rfl : p = -(k : Int) := by omega
    rw [neg_neg, Int.toNat_natCast, twoPow_eq]
    refine ofRatio_exact negative ?_ h
    rw [← hv, zpow_neg, zpow_natCast]
    push_cast
    rfl

theorem topField_lt : f.topField < 2 ^ f.exponentBits := by
  have := Nat.two_pow_pos f.exponentBits
  rw [topField, twoPow_eq]
  omega

/-- The field and the fraction in the pattern of a value. -/
theorem valuePattern_parts (negative : Bool) {m : Nat} {q : Int} (h : f.IsValue m q) :
    ∃ field fraction, f.valuePattern negative m q = f.pack negative field fraction ∧
      fraction < 2 ^ f.fractionBits ∧ field < f.topField ∧
      (if field = 0 then fraction else fraction + 2 ^ f.fractionBits) = m ∧
      f.leastExponent + (max field 1 - 1 : Nat) = q := by
  have hlt := h.lt
  have hleast := h.least_le
  have htop := h.below_top
  rw [Nat.pow_succ] at hlt
  by_cases hm : m < 2 ^ f.fractionBits
  · have hq : q = f.leastExponent := h.normal_or_least.resolve_left (by omega)
    exact ⟨0, m, if_pos hm, hm, by omega, if_pos rfl, by simp [hq]⟩
  · refine ⟨_, _, if_neg hm, by omega, htop, ?_, by omega⟩
    rw [if_neg (by omega)]
    omega

/-- The parts of a finite pattern are a value, whose pattern it is. -/
theorem isValue_of_field (hwide : 1 < f.topField) {bits : Nat} (h : f.field bits ≠ f.topField) :
    f.IsValue (f.mantissa bits) (f.exponent bits) := by
  have hfrac := f.fraction_lt bits
  have htop : f.field bits < f.topField := by
    have := f.field_lt bits
    rw [topField, twoPow_eq] at h ⊢
    omega
  refine ⟨?_, ?_, ?_, ?_⟩
  · rw [mantissa, twoPow_eq, Nat.pow_succ]
    split <;> omega
  · rw [exponent]
    omega
  · rw [mantissa, exponent, twoPow_eq]
    split
    · rename_i hzero
      exact Or.inr (by simp [hzero])
    · exact Or.inl (by omega)
  · rw [exponent]
    omega

theorem valuePattern_of_field {bits : Nat} (hbits : bits < 2 ^ (f.fractionBits + f.exponentBits + 1)) :
    f.valuePattern (f.negative bits) (f.mantissa bits) (f.exponent bits) = bits := by
  have hfrac := f.fraction_lt bits
  rw [valuePattern, mantissa, exponent, twoPow_eq]
  by_cases hzero : f.field bits = 0
  · rw [if_pos hzero, if_pos hfrac]
    conv_rhs => rw [← pack_parts hbits, hzero]
  · rw [if_neg hzero, if_neg (by omega), Nat.add_sub_cancel]
    conv_rhs => rw [← pack_parts hbits]
    congr 1
    omega

/-- In its unit a quotient has at most one digit more than the fraction. -/
theorem lt_unitFor (num : Nat) {den : Nat} (hden : 0 < den) :
    (num : ℚ) / den < 2 ^ (f.fractionBits + 1) * 2 ^ f.unitFor num den := by
  have hlog : (num : ℚ) / den < 2 ^ ((Nat.log2 num : Int) + 1 - Nat.log2 den) := by
    rw [div_lt_iff₀ (by positivity)]
    calc (num : ℚ) < 2 ^ ((Nat.log2 num : Int) + 1) := cast_lt_log2 num
      _ = 2 ^ ((Nat.log2 num : Int) + 1 - Nat.log2 den) * 2 ^ (Nat.log2 den : Int) := by
          rw [← zpow_add₀ (by norm_num), sub_add_cancel]
      _ ≤ _ := mul_le_mul_of_nonneg_left (log2_le_cast (by omega)) (by positivity)
  unfold unitFor
  extract_lets q
  dsimp only
  split
  · -- the first guess is one too low
    calc (num : ℚ) / den < 2 ^ ((Nat.log2 num : Int) + 1 - Nat.log2 den) := hlog
      _ = 2 ^ (f.fractionBits + 1) * 2 ^ (q + 1) := by
          rw [← zpow_natCast, ← zpow_add₀ (by norm_num)]
          congr 1
          push_cast
          omega
      _ ≤ _ := by gcongr <;> simp
  · rename_i hsmall
    have hpos := inUnits_pos num q hden
    rw [not_le, twoPow_eq, Nat.div_lt_iff_lt_mul hpos] at hsmall
    have hunits : (num : ℚ) / den / 2 ^ q < 2 ^ (f.fractionBits + 1) := by
      rw [← inUnits_div num q hden, div_lt_iff₀ (by exact_mod_cast hpos)]
      exact_mod_cast hsmall
    calc (num : ℚ) / den < 2 ^ (f.fractionBits + 1) * 2 ^ q := by rwa [div_lt_iff₀ (by positivity)] at hunits
      _ ≤ _ := by gcongr <;> simp

private theorem roundDiv_le (num den : Nat) : roundDiv num den ≤ num / den + 1 := by
  unfold roundDiv
  dsimp only
  split
  · omega
  · split <;> omega

/-- A quotient is rounded to a pattern of the format. -/
theorem ofRatio_lt (negative : Bool) (num : Nat) {den : Nat} (hden : 0 < den) :
    f.ofRatio negative num den < 2 ^ (f.fractionBits + f.exponentBits + 1) := by
  have htop := Nat.two_pow_pos f.exponentBits
  have hone := Nat.two_pow_pos f.fractionBits
  by_cases hnum : num = 0
  · rw [ofRatio, if_pos hnum]
    exact pack_lt _ hone htop
  have hround : roundDiv (inUnits num den (f.unitFor num den)).1 (inUnits num den (f.unitFor num den)).2 ≤
      2 ^ (f.fractionBits + 1) := by
    have hpos := inUnits_pos num (f.unitFor num den) hden
    have hlt : (inUnits num den (f.unitFor num den)).1 / (inUnits num den (f.unitFor num den)).2 <
        2 ^ (f.fractionBits + 1) := by
      rw [Nat.div_lt_iff_lt_mul hpos]
      have hunits := lt_unitFor (f := f) num hden
      rw [← div_lt_iff₀ (by positivity), ← inUnits_div num _ hden, div_lt_iff₀ (by exact_mod_cast hpos)] at hunits
      exact_mod_cast hunits
    exact (roundDiv_le _ _).trans hlt
  have hnormal (m : Nat) (q : Int) (hm : m < 2 ^ f.fractionBits * 2) :
      (if f.topField ≤ (q - f.leastExponent).toNat + 1 then f.infinity negative
        else f.pack negative ((q - f.leastExponent).toNat + 1) (m - 2 ^ f.fractionBits)) <
        2 ^ (f.fractionBits + f.exponentBits + 1) := by
    split
    · exact pack_lt _ hone topField_lt
    · rename_i hfield
      exact pack_lt _ (by omega) ((not_le.1 hfield).trans topField_lt)
  rw [ofRatio, if_neg hnum]
  dsimp only
  generalize roundDiv _ _ = m at hround ⊢
  rw [twoPow_eq, twoPow_eq]
  rw [Nat.pow_succ] at hround
  rw [Nat.pow_succ 2 f.fractionBits]
  split
  · rename_i hsmall
    exact pack_lt _ hsmall htop
  · -- a mantissa that is rounded up to the next power of two has one more as its exponent
    split
    · exact hnormal _ _ (by omega)
    · exact hnormal _ _ (by omega)

end BinaryFormat

namespace Binary64

open BinaryFormat

theorem pattern_ofPattern {n : Nat} (h : n < 2 ^ 64) : (ofPattern n).pattern = n := by
  rw [pattern, ofPattern]
  exact Nat.mod_eq_of_lt h

theorem toSingle_lt (x : Binary64) : x.toSingle < 2 ^ 32 := by
  unfold toSingle
  split
  · dsimp only
    split
    · exact ofRatio_lt (f := binary32) _ _ Nat.one_pos
    · exact ofRatio_lt (f := binary32) _ _ (by rw [twoPow_eq]; exact Nat.two_pow_pos _)
  · split
    · apply pack_lt (f := binary32) _ _ topField_lt
      have hlow : binary64.fraction x.pattern / twoPow 29 % twoPow 22 < 2 ^ 22 := Nat.mod_lt _ (by decide)
      rw [twoPow_eq 22] at hlow ⊢
      simp only [binary32]
      omega
    · exact pack_lt (f := binary32) _ (Nat.two_pow_pos _) topField_lt

/-- Every value of a single is one of a double. -/
theorem exists_double_value {m : Nat} {q : Int} (h : binary32.IsValue m q) :
    ∃ n p, binary64.IsValue n p ∧ (n : ℚ) * 2 ^ p = m * 2 ^ q := by
  by_cases hm : m = 0
  · refine ⟨0, -1074, ⟨by decide, by decide, Or.inr (by decide), by decide⟩, ?_⟩
    rw [hm]
    simp
  · have hlog : Nat.log2 m < 24 := (Nat.log2_lt hm).2 h.lt
    have hlow := Nat.log2_self_le hm
    have hhigh := Nat.lt_log2_self (n := m)
    have hleast : (-149 : Int) ≤ q := h.least_le
    have htop : (q - (-149)).toNat + 1 < 255 := h.below_top
    have hsplit : 2 ^ Nat.log2 m * 2 ^ (52 - Nat.log2 m) = 2 ^ 52 := by
      rw [← Nat.pow_add, show Nat.log2 m + (52 - Nat.log2 m) = 52 by omega]
    refine ⟨m * 2 ^ (52 - Nat.log2 m), q - (52 - Nat.log2 m : Nat), ⟨?_, ?_, Or.inl ?_, ?_⟩, ?_⟩
    · calc m * 2 ^ (52 - Nat.log2 m) < 2 ^ (Nat.log2 m + 1) * 2 ^ (52 - Nat.log2 m) :=
            Nat.mul_lt_mul_of_pos_right hhigh (Nat.two_pow_pos _)
        _ = 2 ^ 53 := by rw [Nat.pow_succ, Nat.mul_right_comm, hsplit, ← Nat.pow_succ]
    · rw [show binary64.leastExponent = -1074 by decide]
      omega
    · calc 2 ^ 52 = 2 ^ Nat.log2 m * 2 ^ (52 - Nat.log2 m) := hsplit.symm
        _ ≤ m * 2 ^ (52 - Nat.log2 m) := Nat.mul_le_mul_right _ hlow
    · rw [show binary64.leastExponent = -1074 by decide, show binary64.topField = 2047 by decide]
      omega
    · rw [zpow_sub₀ (by norm_num), zpow_natCast]
      push_cast
      field_simp

/-- A finite single is the double of its value. -/
theorem ofSingle_finite {bits : Nat} (h : binary32.field bits ≠ binary32.topField) :
    ∃ n p, binary64.IsValue n p ∧ (n : ℚ) * 2 ^ p = binary32.mantissa bits * 2 ^ binary32.exponent bits ∧
      ofSingle bits = ofPattern (binary64.valuePattern (binary32.negative bits) n p) := by
  obtain ⟨n, p, hvalue, hsame⟩ := exists_double_value (isValue_of_field (by decide) h)
  refine ⟨n, p, hvalue, hsame, ?_⟩
  rw [ofSingle, if_neg h]
  simp only [ofRatio]
  rw [← apply_ite ofPattern, ofRatio_scaled _ hsame.symm hvalue]

/-- A double whose value a single has becomes that single. -/
theorem toSingle_valuePattern {negative : Bool} {n m : Nat} {p q : Int} (h : binary64.IsValue n p)
    (hsingle : binary32.IsValue m q) (hv : (n : ℚ) * 2 ^ p = m * 2 ^ q) :
    (ofPattern (binary64.valuePattern negative n p)).toSingle = binary32.valuePattern negative m q := by
  obtain ⟨field, fraction, hpack, hfrac, hfield, hm, hq⟩ := valuePattern_parts negative h
  have hlt := hfield.trans topField_lt
  have hpattern : (ofPattern (binary64.valuePattern negative n p)).pattern = binary64.pack negative field fraction := by
    rw [hpack, pattern_ofPattern (pack_lt _ hfrac hlt)]
  have hfinite : (ofPattern (binary64.valuePattern negative n p)).isFinite = true := by
    rw [isFinite, hpattern, field_pack hfrac hlt, bne_iff_ne]
    omega
  have hmantissa : binary64.mantissa (binary64.pack negative field fraction) = n := by
    rw [mantissa, field_pack hfrac hlt, fraction_pack hfrac, twoPow_eq, hm]
  have hexponent : binary64.exponent (binary64.pack negative field fraction) = p := by
    rw [exponent, field_pack hfrac hlt, hq]
  rw [toSingle, if_pos hfinite]
  simp only [isNegative, hpattern, hmantissa, hexponent, negative_pack hfrac hlt]
  exact ofRatio_scaled negative hv hsingle

/-- A single that is not a NaN is written as it was read. -/
theorem toSingle_ofSingle {bits : Nat} (hbits : bits < 2 ^ 32)
    (h : binary32.field bits ≠ binary32.topField ∨ binary32.fraction bits = 0) :
    (ofSingle bits).toSingle = bits := by
  by_cases hfield : binary32.field bits = binary32.topField
  · have hzero := h.resolve_left (fun hne => hne hfield)
    have hparts := pack_parts (f := binary32) hbits
    rw [hfield, hzero] at hparts
    rw [ofSingle, if_pos hfield, if_pos hzero]
    conv_rhs => rw [← hparts]
    cases binary32.negative bits <;> decide
  · obtain ⟨n, p, hvalue, hsame, heq⟩ := ofSingle_finite hfield
    rw [heq, toSingle_valuePattern hvalue (isValue_of_field (by decide) hfield) hsame, valuePattern_of_field hbits]

/-- The double of a NaN is a NaN with the quiet bit, and the top of its payload is kept. -/
theorem toSingle_nan {negative : Bool} {payload : Nat} (h : payload < 2 ^ 22) :
    (ofPattern (binary64.pack negative binary64.topField (payload * twoPow 29 + twoPow 51))).toSingle =
      binary32.pack negative binary32.topField (payload + twoPow 22) := by
  have hlt : payload * twoPow 29 + twoPow 51 < 2 ^ binary64.fractionBits := by
    simp only [twoPow_eq, binary64]
    omega
  have htop := topField_lt (f := binary64)
  have hpattern := pattern_ofPattern (pack_lt negative hlt htop)
  have hne : ¬ (payload * twoPow 29 + twoPow 51 = 0) := by
    simp only [twoPow_eq]
    omega
  have hfinite : (ofPattern (binary64.pack negative binary64.topField
      (payload * twoPow 29 + twoPow 51))).isFinite = false := by
    rw [isFinite, hpattern, field_pack hlt htop]
    simp
  have hnan : (ofPattern (binary64.pack negative binary64.topField
      (payload * twoPow 29 + twoPow 51))).isNaN = true := by
    rw [isNaN, hfinite, hpattern, fraction_pack hlt]
    simpa using hne
  have hkept : (payload * twoPow 29 + twoPow 51) / twoPow 29 % twoPow 22 = payload := by
    simp only [twoPow_eq]
    omega
  rw [toSingle, hfinite, hnan, isNegative, hpattern, negative_pack hlt htop, fraction_pack hlt, hkept]
  rfl

/-- A single is read as the same double after it has been written again. -/
theorem ofSingle_toSingle_ofSingle {bits : Nat} (hbits : bits < 2 ^ 32) :
    (ofSingle bits).toSingle < 2 ^ 32 ∧ ofSingle (ofSingle bits).toSingle = ofSingle bits := by
  by_cases h : binary32.field bits ≠ binary32.topField ∨ binary32.fraction bits = 0
  · rw [toSingle_ofSingle hbits h]
    exact ⟨hbits, rfl⟩
  · rw [not_or, not_not] at h
    obtain ⟨hfield, hfrac⟩ := h
    have hpayload : binary32.fraction bits % twoPow 22 < 2 ^ 22 := Nat.mod_lt _ (by decide)
    have hlt : binary32.fraction bits % twoPow 22 + twoPow 22 < 2 ^ binary32.fractionBits := by
      simp only [twoPow_eq, binary32] at hpayload ⊢
      omega
    have htop := topField_lt (f := binary32)
    have heq : ofSingle bits = ofPattern (binary64.pack (binary32.negative bits) binary64.topField
        (binary32.fraction bits % twoPow 22 * twoPow 29 + twoPow 51)) := by
      rw [ofSingle, if_pos hfield, if_neg hfrac]
    rw [heq, toSingle_nan hpayload]
    refine ⟨pack_lt _ hlt htop, ?_⟩
    rw [ofSingle, field_pack hlt htop, negative_pack hlt htop, fraction_pack hlt, if_pos rfl, if_neg]
    · rw [twoPow_eq 22, Nat.add_mod_right, Nat.mod_mod]
    · simp only [twoPow_eq]
      omega

end Binary64

end MessageCodec
