import MessageCodec.Proofs.Single

/-!
# What is rounded to zero

A quotient is rounded to zero by a format just if it is at most half of the format's least positive value: at the
half itself zero is the even neighbour. For singles among doubles this is a bound on patterns, since doubles
without a sign are in the order of their patterns.
-/

namespace MessageCodec

namespace BinaryFormat

variable {f : BinaryFormat}

theorem pack_eq_zero_iff {negative : Bool} {field fraction : Nat} :
    f.pack negative field fraction = 0 ↔ negative = false ∧ field = 0 ∧ fraction = 0 := by
  rw [pack_eq, Nat.add_eq_zero_iff, Nat.mul_eq_zero, Nat.add_eq_zero_iff, Nat.mul_eq_zero]
  cases negative <;> simp

theorem roundDiv_eq_zero_iff {num den : Nat} (hden : 0 < den) : roundDiv num den = 0 ↔ 2 * num ≤ den := by
  unfold roundDiv
  dsimp only
  by_cases hsmall : num < den
  · rw [Nat.div_eq_of_lt hsmall, Nat.mod_eq_of_lt hsmall]
    split
    · omega
    · split <;> omega
  · have hquotient : 0 < num / den := Nat.div_pos (by omega) hden
    split
    · omega
    · split <;> omega

/-- A quotient is in units where it has as many digits as the fraction, unless the unit is the least one. -/
theorem le_of_lt_unitFor {num den : Nat} (hnum : num ≠ 0) (hden : 0 < den)
    (h : f.leastExponent < f.unitFor num den) :
    (2 : ℚ) ^ f.fractionBits * 2 ^ f.unitFor num den ≤ (num : ℚ) / den := by
  have hlog : (2 : ℚ) ^ ((Nat.log2 num : Int) - Nat.log2 den - 1) ≤ (num : ℚ) / den := by
    rw [le_div_iff₀ (by positivity)]
    calc (2 : ℚ) ^ ((Nat.log2 num : Int) - Nat.log2 den - 1) * den
        ≤ 2 ^ ((Nat.log2 num : Int) - Nat.log2 den - 1) * 2 ^ ((Nat.log2 den : Int) + 1) :=
          mul_le_mul_of_nonneg_left (cast_lt_log2 den).le (by positivity)
      _ = 2 ^ (Nat.log2 num : Int) := by
          rw [← zpow_add₀ (by norm_num)]
          congr 1
          omega
      _ ≤ num := log2_le_cast hnum
  unfold unitFor at h ⊢
  dsimp only at h ⊢
  generalize hq : (Nat.log2 num : Int) - Nat.log2 den - f.fractionBits - 1 = q at h ⊢
  rw [max_eq_left (by omega)]
  split
  · rename_i hlarge
    have hpos := inUnits_pos num q hden
    rw [twoPow_eq, Nat.le_div_iff_mul_le hpos] at hlarge
    have hunits : (2 : ℚ) ^ (f.fractionBits + 1) ≤ (num : ℚ) / den / 2 ^ q := by
      rw [← inUnits_div num q hden, le_div_iff₀ (by exact_mod_cast hpos)]
      exact_mod_cast hlarge
    rw [le_div_iff₀ (by positivity)] at hunits
    calc (2 : ℚ) ^ f.fractionBits * 2 ^ (q + 1) = 2 ^ (f.fractionBits + 1) * 2 ^ q := by
          rw [zpow_add_one₀ (by norm_num), pow_succ]
          ring
      _ ≤ _ := hunits
  · calc (2 : ℚ) ^ f.fractionBits * 2 ^ q = 2 ^ ((Nat.log2 num : Int) - Nat.log2 den - 1) := by
          rw [← zpow_natCast, ← zpow_add₀ (by norm_num)]
          congr 1
          omega
      _ ≤ _ := hlog

private theorem ofRatio_eq_zero_iff_round (htop : 0 < f.topField) {negative : Bool} {num den : Nat} :
    f.ofRatio negative num den = 0 ↔ negative = false ∧ (num = 0 ∨
      roundDiv (inUnits num den (f.unitFor num den)).1 (inUnits num den (f.unitFor num den)).2 = 0) := by
  have hpow := Nat.two_pow_pos f.fractionBits
  unfold ofRatio
  by_cases hnum : num = 0
  · rw [if_pos hnum, pack_eq_zero_iff]
    simp [hnum]
  · rw [if_neg hnum]
    dsimp only
    generalize roundDiv _ _ = m
    rw [twoPow_eq]
    by_cases hsmall : m < 2 ^ f.fractionBits
    · rw [if_pos hsmall, pack_eq_zero_iff]
      simp [hnum]
    · have hm : m ≠ 0 := by omega
      rw [if_neg hsmall]
      split
      all_goals
        split
        · rw [infinity, pack_eq_zero_iff]
          simp [hnum, hm, htop.ne']
        · rw [pack_eq_zero_iff]
          simp [hnum, hm]

private theorem roundDiv_inUnits_eq_zero_iff {num den : Nat} (hden : 0 < den) (q : Int) :
    roundDiv (inUnits num den q).1 (inUnits num den q).2 = 0 ↔ (num : ℚ) / den ≤ 2 ^ (q - 1) := by
  have hpos := inUnits_pos num q hden
  have hpos' : (0 : ℚ) < (inUnits num den q).2 := by exact_mod_cast hpos
  have hhalf : 2 * (inUnits num den q).1 ≤ (inUnits num den q).2 ↔
      ((inUnits num den q).1 : ℚ) / (inUnits num den q).2 ≤ 2⁻¹ := by
    rw [div_le_iff₀ hpos', le_inv_mul_iff₀ (by norm_num)]
    norm_cast
  rw [roundDiv_eq_zero_iff hpos, hhalf, inUnits_div num q hden, div_le_iff₀ (by positivity),
    zpow_sub_one₀ (by norm_num), mul_comm]

/-- Just what is at most half of the least positive value is rounded to zero. -/
theorem ofRatio_eq_zero_iff (htop : 0 < f.topField) {negative : Bool} {num den : Nat} (hden : 0 < den) :
    f.ofRatio negative num den = 0 ↔ negative = false ∧ (num : ℚ) / den ≤ 2 ^ (f.leastExponent - 1) := by
  rw [ofRatio_eq_zero_iff_round htop]
  refine and_congr_right fun _ => ?_
  by_cases hnum : num = 0
  · have hpow : (0 : ℚ) ≤ 2 ^ (f.leastExponent - 1) := by positivity
    simpa [hnum] using hpow
  rw [roundDiv_inUnits_eq_zero_iff hden, or_iff_right hnum]
  have hleast : f.leastExponent ≤ f.unitFor num den := le_max_right _ _
  rcases hleast.eq_or_lt with heq | hlt
  · rw [heq]
  · -- above the least unit a quotient is too large to be rounded to zero
    have hlarge : (2 : ℚ) ^ f.unitFor num den ≤ (num : ℚ) / den :=
      calc (2 : ℚ) ^ f.unitFor num den ≤ 2 ^ f.fractionBits * 2 ^ f.unitFor num den :=
            le_mul_of_one_le_left (by positivity) (one_le_pow₀ (by norm_num))
        _ ≤ _ := le_of_lt_unitFor hnum hden hlt
    have hbelow {q : Int} (hq : q < f.unitFor num den) : ¬ (num : ℚ) / den ≤ 2 ^ q :=
      not_le.2 (lt_of_lt_of_le ((zpow_lt_zpow_iff_right₀ (by norm_num)).2 hq) hlarge)
    exact iff_of_false (hbelow (by omega)) (hbelow (by omega))

end BinaryFormat

namespace Binary64

open BinaryFormat

/-- The value of a finite double as a quotient, which is what is rounded to a single. -/
theorem exists_toSingle_eq {x : Binary64} (h : x.isFinite = true) : ∃ num den : Nat, 0 < den ∧
    (num : ℚ) / den = binary64.mantissa x.pattern * 2 ^ binary64.exponent x.pattern ∧
    x.toSingle = binary32.ofRatio x.isNegative num den := by
  rw [toSingle, if_pos h]
  dsimp only
  by_cases hq : 0 ≤ binary64.exponent x.pattern
  · refine ⟨_, 1, Nat.one_pos, ?_, if_pos hq⟩
    rw [twoPow_eq, Nat.cast_one, div_one, Nat.cast_mul, Nat.cast_pow, Nat.cast_ofNat, ← zpow_natCast,
      Int.toNat_of_nonneg hq]
  · refine ⟨_, _, by rw [twoPow_eq]; exact Nat.two_pow_pos _, ?_, if_neg hq⟩
    rw [twoPow_eq, Nat.cast_pow, Nat.cast_ofNat, ← zpow_natCast, Int.toNat_of_nonneg (by omega), zpow_neg,
      div_inv_eq_mul]

private theorem mul_zpow_le {m k : Nat} {q e : Int} (hm : m ≤ 2 ^ k) (hq : k + q ≤ e) : (m : ℚ) * 2 ^ q ≤ 2 ^ e :=
  calc (m : ℚ) * 2 ^ q ≤ 2 ^ k * 2 ^ q := mul_le_mul_of_nonneg_right (by exact_mod_cast hm) (by positivity)
    _ = 2 ^ (k + q) := by rw [zpow_add₀ (by norm_num), zpow_natCast]
    _ ≤ 2 ^ e := zpow_le_zpow_right₀ (by norm_num) hq

private theorem lt_mul_zpow {m k : Nat} {q e : Int} (hm : 2 ^ k ≤ m) (hq : e ≤ k + q) (h : 2 ^ k < m ∨ e < k + q) :
    (2 : ℚ) ^ e < m * 2 ^ q := by
  have hpow : (2 : ℚ) ^ (k + q) = 2 ^ k * 2 ^ q := by rw [zpow_add₀ (by norm_num), zpow_natCast]
  rcases h with hlt | hlt
  · calc (2 : ℚ) ^ e ≤ 2 ^ (k + q) := zpow_le_zpow_right₀ (by norm_num) hq
      _ = 2 ^ k * 2 ^ q := hpow
      _ < m * 2 ^ q := mul_lt_mul_of_pos_right (by exact_mod_cast hlt) (by positivity)
  · calc (2 : ℚ) ^ e < 2 ^ (k + q) := zpow_lt_zpow_right₀ (by norm_num) hlt
      _ = 2 ^ k * 2 ^ q := hpow
      _ ≤ m * 2 ^ q := mul_le_mul_of_nonneg_right (by exact_mod_cast hm) (by positivity)

/-- Doubles without a sign are in the order of their patterns; the bound is half of the least positive single. -/
theorem value_le_iff {bits : Nat} (hbits : bits < 2 ^ 63) :
    (binary64.mantissa bits : ℚ) * 2 ^ binary64.exponent bits ≤ 2 ^ (-150 : Int) ↔ bits ≤ 0x3690000000000000 := by
  have hmantissa : binary64.mantissa bits =
      if bits / 2 ^ 52 % 2 ^ 11 = 0 then bits % 2 ^ 52 else bits % 2 ^ 52 + 2 ^ 52 := rfl
  have hexponent : binary64.exponent bits = -1074 + (max (bits / 2 ^ 52 % 2 ^ 11) 1 - 1 : Nat) := rfl
  by_cases hle : bits ≤ 0x3690000000000000
  · refine iff_of_true ?_ hle
    by_cases hlt : bits < 0x3690000000000000
    · apply mul_zpow_le (k := 53)
      · rw [hmantissa]
        split <;> omega
      · rw [hexponent]
        omega
    · obtain rfl : bits = 0x3690000000000000 := by omega
      rw [hexponent, hmantissa]
      exact mul_zpow_le (k := 52) (by decide) (by decide)
  · refine iff_of_false (not_le.2 ?_) hle
    apply lt_mul_zpow (k := 52)
    · rw [hmantissa, if_neg (by omega)]
      omega
    · rw [hexponent]
      omega
    · rw [hmantissa, if_neg (by omega), hexponent]
      omega

/-- A double is nothing as a single just if it is zero or positive and at most half of the least positive single. -/
theorem toSingle_eq_zero_iff (x : Binary64) : x.toSingle = 0 ↔ x.pattern ≤ 0x3690000000000000 := by
  have hlt : x.pattern < 2 ^ 64 := x.bits.toNat_lt
  have hnegative : x.isNegative = (x.pattern / 2 ^ 63 % 2 == 1) := rfl
  by_cases hfinite : x.isFinite = true
  · obtain ⟨num, den, hden, hvalue, heq⟩ := exists_toSingle_eq hfinite
    rw [heq, ofRatio_eq_zero_iff (by decide) hden, hvalue, show binary32.leastExponent - 1 = -150 by decide,
      hnegative, beq_eq_false_iff_ne]
    by_cases hsign : x.pattern < 2 ^ 63
    · rw [value_le_iff hsign]
      omega
    · omega
  · -- what is not finite has a pattern with all bits of the exponent
    have hfield : x.pattern / 2 ^ 52 % 2 ^ 11 = 2047 := by
      rw [isFinite, bne_iff_ne, not_not] at hfinite
      exact hfinite
    refine iff_of_false ?_ (by omega)
    rw [toSingle, if_neg hfinite]
    split
    · rw [pack_eq_zero_iff]
      rintro ⟨-, hzero, -⟩
      exact absurd hzero (by decide)
    · rw [BinaryFormat.infinity, pack_eq_zero_iff]
      rintro ⟨-, hzero, -⟩
      exact absurd hzero (by decide)

end Binary64

end MessageCodec
