import Mathlib.Tactic
import MessageCodec.Number.Checked

/-!
# Arithmetic on numerals

Every operation on digit texts is the operation on the numbers they denote. The canonical text of a
number is `ofNat`, and a run of digits without a leading zero is the canonical text of its value, so
each operation is described by one equation that ends in `ofNat`. The loops work from the least
significant end; `lowVal` is the value read in that direction.
-/

namespace MessageCodec.Numeral

def Digits (a : Numeral) : Prop := ∀ c ∈ a, isDigit c = true

theorem isDigit_iff {c : Char} : isDigit c = true ↔ 48 ≤ c.toNat ∧ c.toNat ≤ 57 := by
  simp only [isDigit, Char.isDigit, Bool.and_eq_true, decide_eq_true_eq, UInt32.le_iff_toNat_le]
  exact Iff.rfl

theorem toNat_digitChar {d : Nat} (h : d < 10) : (digitChar (d : Int)).toNat = d + 48 := by
  have hall : ∀ d : Fin 10, (digitChar ((d : Nat) : Int)).toNat = d + 48 := by decide
  exact hall ⟨d, h⟩

theorem isDigit_digitChar {d : Nat} (h : d < 10) : isDigit (digitChar (d : Int)) = true := by
  rw [isDigit_iff, toNat_digitChar h]
  omega

theorem digitChar_of_isDigit {c : Char} (h : isDigit c = true) :
    digitChar ((c.toNat - 48 : Nat) : Int) = c := by
  obtain ⟨hlow, hhigh⟩ := isDigit_iff.1 h
  apply Char.toNat_inj.1
  rw [toNat_digitChar (by omega)]
  omega

theorem digitValue_of_isDigit {c : Char} (h : isDigit c = true) :
    digitValue c = ((c.toNat - 48 : Nat) : Int) := by
  obtain ⟨hlow, _⟩ := isDigit_iff.1 h
  unfold digitValue
  omega

theorem digitChar_eq_zero_iff {d : Nat} (h : d < 10) : digitChar (d : Int) = '0' ↔ d = 0 := by
  have hall : ∀ d : Fin 10, digitChar ((d : Nat) : Int) = '0' ↔ (d : Nat) = 0 := by decide
  exact hall ⟨d, h⟩

theorem digits_nil : Digits [] := fun _ h => absurd h List.not_mem_nil

theorem Digits.of_cons {c : Char} {a : Numeral} (h : Digits (c :: a)) :
    isDigit c = true ∧ Digits a :=
  ⟨h c (by simp), fun d hd => h d (by simp [hd])⟩

theorem Digits.cons {c : Char} {a : Numeral} (hc : isDigit c = true) (ha : Digits a) : Digits (c :: a) := by
  intro d hd
  rcases List.mem_cons.1 hd with rfl | hd
  · exact hc
  · exact ha d hd

theorem Digits.append {a b : Numeral} (ha : Digits a) (hb : Digits b) : Digits (a ++ b) := by
  intro c hc
  rcases List.mem_append.1 hc with h | h
  · exact ha c h
  · exact hb c h

theorem Digits.reverse {a : Numeral} (h : Digits a) : Digits a.reverse :=
  fun c hc => h c (List.mem_reverse.1 hc)

theorem digits_singleton {c : Char} (h : isDigit c = true) : Digits [c] := by
  intro d hd
  rw [List.mem_singleton.1 hd]
  exact h

/-! ### Values -/

@[simp] theorem val_nil : val [] = 0 := rfl

theorem val_append_singleton (a : Numeral) (c : Char) : val (a ++ [c]) = 10 * val a + (c.toNat - 48) := by
  simp only [val, List.foldl_append, List.foldl_cons, List.foldl_nil]

/-- The value of digits read from the least significant end. -/
def lowVal : List Char → Nat
  | [] => 0
  | c :: cs => (c.toNat - 48) + 10 * lowVal cs

theorem val_reverse (cs : List Char) : val cs.reverse = lowVal cs := by
  induction cs with
  | nil => rfl
  | cons c cs ih =>
    rw [List.reverse_cons, val_append_singleton, ih, lowVal]
    omega

theorem lowVal_reverse (a : Numeral) : lowVal a.reverse = val a := by
  rw [← val_reverse, List.reverse_reverse]

/-- Leading zeros count for nothing. -/
theorem val_zero_cons (a : Numeral) : val ('0' :: a) = val a := by
  simp only [val, List.foldl_cons]
  rfl

theorem val_dropWhile_zero (a : Numeral) : val (a.dropWhile (· == '0')) = val a := by
  induction a with
  | nil => rfl
  | cons c a ih =>
    by_cases hc : c = '0'
    · subst hc
      rw [List.dropWhile_cons_of_pos (by simp), ih, val_zero_cons]
    · rw [List.dropWhile_cons_of_neg (by simpa using hc)]

private theorem foldl_eq_val (a : Numeral) (n : Nat) :
    a.foldl (fun n c => 10 * n + (c.toNat - 48)) n = n * 10 ^ a.length + val a := by
  induction a using List.reverseRecOn with
  | nil => simp
  | append_singleton a c ih =>
    rw [List.foldl_append, ih, List.foldl_cons, List.foldl_nil, val_append_singleton,
      List.length_append, List.length_singleton, pow_succ]
    ring

theorem val_cons (c : Char) (a : Numeral) : val (c :: a) = (c.toNat - 48) * 10 ^ a.length + val a := by
  have h := foldl_eq_val a (10 * 0 + (c.toNat - 48))
  rw [Nat.mul_zero, Nat.zero_add] at h
  rw [val, List.foldl_cons, Nat.mul_zero, Nat.zero_add, h]

theorem val_lt_pow {a : Numeral} (h : Digits a) : val a < 10 ^ a.length := by
  induction a using List.reverseRecOn with
  | nil => simp
  | append_singleton a c ih =>
    have hc := isDigit_iff.1 (h c (by simp))
    have ha := ih fun d hd => h d (by simp [hd])
    rw [val_append_singleton, List.length_append, List.length_singleton, pow_succ]
    omega

/-! ### Canonical texts -/

theorem ofNat_of_lt {n : Nat} (h : n < 10) : ofNat n = [digitChar (n : Int)] := by
  rw [ofNat, if_pos h]

theorem ofNat_of_ge {n : Nat} (h : 10 ≤ n) :
    ofNat n = ofNat (n / 10) ++ [digitChar ((n % 10 : Nat) : Int)] := by
  rw [ofNat, if_neg (by omega)]

@[simp] theorem ofNat_zero : ofNat 0 = ['0'] := by
  rw [ofNat_of_lt (by decide)]
  rfl

theorem ofNat_ne_nil (n : Nat) : ofNat n ≠ [] := by
  rw [ofNat]
  split <;> simp

theorem digits_ofNat (n : Nat) : Digits (ofNat n) := by
  induction n using Nat.strongRecOn with
  | _ n ih =>
    by_cases h : n < 10
    · rw [ofNat_of_lt h]
      exact digits_singleton (isDigit_digitChar h)
    · rw [ofNat_of_ge (by omega)]
      exact (ih (n / 10) (by omega)).append
        (digits_singleton (isDigit_digitChar (Nat.mod_lt _ (by decide))))

@[simp] theorem val_ofNat (n : Nat) : val (ofNat n) = n := by
  induction n using Nat.strongRecOn with
  | _ n ih =>
    by_cases h : n < 10
    · rw [ofNat_of_lt h, ← List.nil_append [digitChar (n : Int)], val_append_singleton,
        toNat_digitChar h]
      simp
    · rw [ofNat_of_ge (by omega), val_append_singleton, ih (n / 10) (by omega),
        toNat_digitChar (Nat.mod_lt _ (by decide))]
      omega

theorem ofNat_injective {m n : Nat} (h : ofNat m = ofNat n) : m = n := by
  have hval := congrArg val h
  rwa [val_ofNat, val_ofNat] at hval

theorem ofNat_eq_zero_iff {n : Nat} : ofNat n = ['0'] ↔ n = 0 := by
  rw [← ofNat_zero]
  exact ⟨ofNat_injective, fun h => h ▸ rfl⟩

/-- A run of digits is canonical when it opens with no zero. -/
theorem ofNat_val_of_head {a : Numeral} (h : Digits a) (hne : a ≠ []) (hhead : a.head? ≠ some '0') :
    ofNat (val a) = a := by
  induction a using List.reverseRecOn with
  | nil => exact absurd rfl hne
  | append_singleton a c ih =>
    have hc : isDigit c = true := h c (by simp)
    have hdigit := isDigit_iff.1 hc
    rw [val_append_singleton]
    by_cases hnil : a = []
    · subst hnil
      rw [val_nil, ofNat_of_lt (by omega), Nat.mul_zero, Nat.zero_add, digitChar_of_isDigit hc]
      rfl
    · have hhead' : a.head? ≠ some '0' := by
        rwa [List.head?_append_of_ne_nil _ hnil] at hhead
      have hcanon := ih (fun d hd => h d (by simp [hd])) hnil hhead'
      -- a canonical text of zero would open with a zero
      have hpos : val a ≠ 0 := by
        intro hzero
        rw [hzero, ofNat_zero] at hcanon
        rw [← hcanon] at hhead'
        exact hhead' rfl
      rw [ofNat_of_ge (by omega), show (10 * val a + (c.toNat - 48)) / 10 = val a by omega, hcanon,
        show (10 * val a + (c.toNat - 48)) % 10 = c.toNat - 48 by omega, digitChar_of_isDigit hc]

theorem head?_dropWhile_zero (a : Numeral) : (a.dropWhile (· == '0')).head? ≠ some '0' := by
  intro h
  have hmem := List.head?_dropWhile_not (· == '0') a
  rw [h] at hmem
  simp at hmem

/-- Dropping leading zeros leaves the canonical text. -/
theorem trim_eq_ofNat {a : Numeral} (h : Digits a) : trim a = ofNat (val a) := by
  have hval := val_dropWhile_zero a
  have hdigits : Digits (a.dropWhile (· == '0')) := fun c hc =>
    h c ((List.dropWhile_suffix _).subset hc)
  have hhead := head?_dropWhile_zero a
  unfold trim
  cases hdrop : a.dropWhile (· == '0') with
  | nil =>
    rw [hdrop] at hval
    simp [← hval]
  | cons d ds =>
    rw [hdrop] at hval hdigits hhead
    rw [← hval, ofNat_val_of_head hdigits (by simp) hhead]

@[simp] theorem trim_ofNat (n : Nat) : trim (ofNat n) = ofNat n := by
  rw [trim_eq_ofNat (digits_ofNat n), val_ofNat]

theorem ofNat_length_le_of_lt {n k : Nat} (hk : 0 < k) (h : n < 10 ^ k) : (ofNat n).length ≤ k := by
  induction k generalizing n with
  | zero => exact absurd hk (by decide)
  | succ k ih =>
    by_cases hn : n < 10
    · simp [ofNat_of_lt hn]
    · have hk' : 0 < k := by
        rcases Nat.eq_zero_or_pos k with rfl | hpos
        · simp at h
          omega
        · exact hpos
      have hdiv : n / 10 < 10 ^ k := by
        rw [pow_succ] at h
        omega
      rw [ofNat_of_ge (by omega), List.length_append, List.length_singleton]
      have := ih hk' hdiv
      omega

private theorem pow_length_ofNat_le {n : Nat} (h : 0 < n) : 10 ^ ((ofNat n).length - 1) ≤ n := by
  induction n using Nat.strongRecOn with
  | _ n ih =>
    by_cases hn : n < 10
    · simp [ofNat_of_lt hn]
      omega
    · have hprev := ih (n / 10) (by omega) (by omega)
      have hlen : 0 < (ofNat (n / 10)).length := List.length_pos_iff.2 (ofNat_ne_nil _)
      rw [ofNat_of_ge (by omega), List.length_append, List.length_singleton, Nat.add_sub_cancel]
      obtain ⟨k, hk⟩ : ∃ k, (ofNat (n / 10)).length = k + 1 := ⟨_, (Nat.succ_pred_eq_of_pos hlen).symm⟩
      rw [hk, Nat.add_sub_cancel] at hprev
      rw [hk, pow_succ]
      omega

/-! ### Order -/

private theorem compareText_eq {a b : Numeral} (ha : Digits a) (hb : Digits b) (hlen : a.length = b.length) :
    compareText a b = Ord.compare (val a) (val b) := by
  induction a generalizing b with
  | nil =>
    obtain rfl := List.eq_nil_of_length_eq_zero hlen.symm
    rfl
  | cons c a ih =>
    cases b with
    | nil => simp at hlen
    | cons d b =>
      obtain ⟨hc, ha'⟩ := ha.of_cons
      obtain ⟨hd, hb'⟩ := hb.of_cons
      have hlen' : a.length = b.length := by simpa using hlen
      have hcr := isDigit_iff.1 hc
      have hdr := isDigit_iff.1 hd
      have hva := val_lt_pow ha'
      have hvb := val_lt_pow hb'
      rw [hlen'] at hva
      rw [val_cons, val_cons, hlen', compareText]
      by_cases hcd : c = d
      · subst hcd
        rw [if_pos rfl, ih ha' hb' hlen']
        simp [Nat.compare_eq_ite_lt]
      · have hne : c.toNat ≠ d.toNat := fun h => hcd (Char.toNat_inj.1 h)
        rw [if_neg hcd]
        by_cases hlt : c.toNat < d.toNat
        · have hmul : (c.toNat - 48 + 1) * 10 ^ b.length ≤ (d.toNat - 48) * 10 ^ b.length :=
            Nat.mul_le_mul_right _ (by omega)
          rw [if_pos hlt, eq_comm, Nat.compare_eq_lt]
          rw [Nat.add_mul, Nat.one_mul] at hmul
          omega
        · have hmul : (d.toNat - 48 + 1) * 10 ^ b.length ≤ (c.toNat - 48) * 10 ^ b.length :=
            Nat.mul_le_mul_right _ (by omega)
          rw [if_neg hlt, eq_comm, Nat.compare_eq_gt]
          rw [Nat.add_mul, Nat.one_mul] at hmul
          omega

/-- A shorter canonical text stands for a smaller number. -/
theorem lt_of_length_ofNat_lt {m n : Nat} (h : (ofNat m).length < (ofNat n).length) : m < n := by
  have hm := val_lt_pow (digits_ofNat m)
  rw [val_ofNat] at hm
  have hpos : 0 < n := by
    rcases Nat.eq_zero_or_pos n with rfl | hn
    · have hlen := List.length_pos_iff.2 (ofNat_ne_nil m)
      rw [ofNat_zero, List.length_singleton] at h
      omega
    · exact hn
  calc m < 10 ^ (ofNat m).length := hm
    _ ≤ 10 ^ ((ofNat n).length - 1) := Nat.pow_le_pow_right (by decide) (by omega)
    _ ≤ n := pow_length_ofNat_le hpos

theorem compare_eq {a b : Numeral} (ha : Digits a) (hb : Digits b) :
    compare a b = Ord.compare (val a) (val b) := by
  have htext := compareText_eq (digits_ofNat (val a)) (digits_ofNat (val b))
  simp only [val_ofNat] at htext
  simp only [compare, trim_eq_ofNat ha, trim_eq_ofNat hb]
  by_cases hlt : (ofNat (val a)).length < (ofNat (val b)).length
  · rw [if_pos hlt, eq_comm, Nat.compare_eq_lt]
    exact lt_of_length_ofNat_lt hlt
  · rw [if_neg hlt]
    by_cases hgt : (ofNat (val b)).length < (ofNat (val a)).length
    · rw [if_pos hgt, eq_comm, Nat.compare_eq_gt]
      exact lt_of_length_ofNat_lt hgt
    · rw [if_neg hgt, htext (by omega)]

@[simp] theorem compare_ofNat (m n : Nat) : compare (ofNat m) (ofNat n) = Ord.compare m n := by
  rw [compare_eq (digits_ofNat m) (digits_ofNat n), val_ofNat, val_ofNat]

/-! ### Sums, differences and products -/

theorem digits_carryDigits (n : Nat) : Digits (carryDigits n) := by
  induction n using Nat.strongRecOn with
  | _ n ih =>
    rw [carryDigits]
    split
    · exact digits_nil
    · exact .cons (isDigit_digitChar (Nat.mod_lt _ (by decide))) (ih (n / 10) (by omega))

theorem lowVal_carryDigits (n : Nat) : lowVal (carryDigits n) = n := by
  induction n using Nat.strongRecOn with
  | _ n ih =>
    rw [carryDigits]
    split
    · rename_i h
      rw [h]
      rfl
    · rw [lowVal, ih (n / 10) (by omega), toNat_digitChar (Nat.mod_lt _ (by decide))]
      omega

/-- One position of a sum or product: the digit written and what is carried on. -/
theorem place_spec {next : Int → List Char} {position : Int} {total m : Nat} (hposition : position = total)
    (h : Digits (next (total / 10 : Nat)) ∧ lowVal (next (total / 10 : Nat)) = m) :
    Digits (digitChar (position % 10) :: next (position / 10)) ∧
      lowVal (digitChar (position % 10) :: next (position / 10)) = total % 10 + 10 * m := by
  obtain ⟨hdigits, hval⟩ := h
  have hlt : total % 10 < 10 := Nat.mod_lt _ (by decide)
  rw [hposition, show ((total : Int) % 10) = ((total % 10 : Nat) : Int) by omega,
    show ((total : Int) / 10) = ((total / 10 : Nat) : Int) by omega]
  refine ⟨.cons (isDigit_digitChar hlt) hdigits, ?_⟩
  rw [lowVal, hval, toNat_digitChar hlt]
  omega

private theorem addReversed_spec {a b : List Char} (ha : Digits a) (hb : Digits b) (carry : Nat) :
    Digits (addReversed a b carry) ∧ lowVal (addReversed a b carry) = carry + lowVal a + lowVal b := by
  induction a generalizing b carry with
  | nil =>
    induction b generalizing carry with
    | nil =>
      rw [addReversed, Int.toNat_natCast]
      exact ⟨digits_carryDigits carry, by rw [lowVal_carryDigits, lowVal]; omega⟩
    | cons d b ih =>
      obtain ⟨hd, hb⟩ := hb.of_cons
      have htotal : (carry : Int) + digitValue d = ((carry + (d.toNat - 48) : Nat) : Int) := by
        rw [digitValue_of_isDigit hd, Nat.cast_add]
      obtain ⟨hdigits, hval⟩ := place_spec htotal (ih hb _)
      rw [addReversed]
      refine ⟨hdigits, hval.trans ?_⟩
      simp only [lowVal]
      omega
  | cons c a ih =>
    obtain ⟨hc, ha⟩ := ha.of_cons
    cases b with
    | nil =>
      have htotal : (carry : Int) + digitValue c = ((carry + (c.toNat - 48) : Nat) : Int) := by
        rw [digitValue_of_isDigit hc, Nat.cast_add]
      obtain ⟨hdigits, hval⟩ := place_spec htotal (ih ha digits_nil _)
      rw [addReversed]
      refine ⟨hdigits, hval.trans ?_⟩
      simp only [lowVal]
      omega
    | cons d b =>
      obtain ⟨hd, hb⟩ := hb.of_cons
      have htotal : (carry : Int) + digitValue c + digitValue d
          = ((carry + (c.toNat - 48) + (d.toNat - 48) : Nat) : Int) := by
        rw [digitValue_of_isDigit hc, digitValue_of_isDigit hd, Nat.cast_add, Nat.cast_add]
      obtain ⟨hdigits, hval⟩ := place_spec htotal (ih ha hb _)
      rw [addReversed]
      refine ⟨hdigits, hval.trans ?_⟩
      simp only [lowVal]
      omega

theorem add_eq {a b : Numeral} (ha : Digits a) (hb : Digits b) : add a b = ofNat (val a + val b) := by
  obtain ⟨hdigits, hval⟩ :=
    addReversed_spec (digits_ofNat (val a)).reverse (digits_ofNat (val b)).reverse 0
  rw [add, trim_eq_ofNat ha, trim_eq_ofNat hb]
  rw [Int.natCast_zero] at hdigits hval
  rw [trim_eq_ofNat hdigits.reverse, val_reverse, hval, lowVal_reverse, lowVal_reverse, val_ofNat,
    val_ofNat, Nat.zero_add]

private theorem multiplyReversed_spec {a : List Char} (ha : Digits a) (factor carry : Nat) :
    Digits (multiplyReversed factor a carry) ∧
      lowVal (multiplyReversed factor a carry) = lowVal a * factor + carry := by
  induction a generalizing carry with
  | nil =>
    rw [multiplyReversed, Int.toNat_natCast]
    exact ⟨digits_carryDigits carry, by rw [lowVal_carryDigits, lowVal]; omega⟩
  | cons c a ih =>
    obtain ⟨hc, ha⟩ := ha.of_cons
    have htotal : digitValue c * (factor : Int) + carry
        = (((c.toNat - 48) * factor + carry : Nat) : Int) := by
      rw [digitValue_of_isDigit hc, Nat.cast_add, Nat.cast_mul]
    obtain ⟨hdigits, hval⟩ := place_spec htotal (ih ha _)
    rw [multiplyReversed]
    refine ⟨hdigits, hval.trans ?_⟩
    rw [lowVal, Nat.add_mul, Nat.mul_assoc]
    omega

theorem multiply_eq {a : Numeral} (ha : Digits a) (factor : Int) :
    multiply a factor = ofNat (val a * factor.toNat) := by
  rw [multiply, trim_eq_ofNat ha]
  by_cases hfactor : factor ≤ 0
  · rw [if_pos (by simp [hfactor]), Int.toNat_of_nonpos hfactor, Nat.mul_zero, ofNat_zero]
  · obtain ⟨k, rfl⟩ := Int.eq_ofNat_of_zero_le (show 0 ≤ factor by omega)
    by_cases hzero : val a = 0
    · rw [if_pos (by simp [hzero]), hzero, Nat.zero_mul, ofNat_zero]
    · have hbase : ¬ ofNat (val a) = ['0'] := fun h => hzero (ofNat_eq_zero_iff.1 h)
      obtain ⟨hdigits, hval⟩ := multiplyReversed_spec (digits_ofNat (val a)).reverse k 0
      rw [Int.natCast_zero] at hdigits hval
      rw [if_neg (by simpa [hbase] using hfactor)]
      rw [trim_eq_ofNat hdigits.reverse, val_reverse, hval, lowVal_reverse, val_ofNat]
      rfl

/-- One position of a difference. A missing digit of the subtrahend counts for nothing. -/
theorem subtractReversed_cons {b : List Char} (hb : Digits b) (c : Char) (a : List Char) (borrow : Int) :
    ∃ (d : Nat) (tail : List Char), d < 10 ∧ Digits tail ∧ lowVal b = d + 10 * lowVal tail ∧
      subtractReversed (c :: a) b borrow
        = if digitValue c - borrow - d < 0 then (digitValue c - borrow - d + 10) :: subtractReversed a tail 1
          else (digitValue c - borrow - d) :: subtractReversed a tail 0 := by
  cases b with
  | nil => exact ⟨0, [], by decide, digits_nil, rfl, by simp [subtractReversed]⟩
  | cons e b =>
    obtain ⟨he, hb⟩ := hb.of_cons
    have her := isDigit_iff.1 he
    exact ⟨e.toNat - 48, b, by omega, hb, rfl, by rw [subtractReversed, digitValue_of_isDigit he]⟩

private theorem subtractReversed_spec {a b : List Char} (ha : Digits a) (hb : Digits b) (borrow : Nat)
    (hborrow : borrow ≤ 1) (hle : lowVal b + borrow ≤ lowVal a) :
    Digits ((subtractReversed a b borrow).map digitChar) ∧
      lowVal ((subtractReversed a b borrow).map digitChar) = lowVal a - lowVal b - borrow := by
  induction a generalizing b borrow with
  | nil =>
    rw [subtractReversed]
    exact ⟨digits_nil, by simp [lowVal]⟩
  | cons c a ih =>
    obtain ⟨hc, ha⟩ := ha.of_cons
    have hcr := isDigit_iff.1 hc
    obtain ⟨d, tail, hd, htail, hlow, hstep⟩ := subtractReversed_cons hb c a borrow
    rw [hstep, digitValue_of_isDigit hc]
    rw [hlow, lowVal] at hle
    rw [hlow, lowVal]
    by_cases hneg : ((c.toNat - 48 : Nat) : Int) - borrow - d < 0
    · obtain ⟨hdigits, hval⟩ := ih ha htail 1 (by decide) (by omega)
      rw [if_pos hneg, List.map_cons, show ((c.toNat - 48 : Nat) : Int) - borrow - d + 10
        = ((c.toNat - 48 + 10 - borrow - d : Nat) : Int) by omega]
      rw [Nat.cast_one] at hdigits hval
      refine ⟨.cons (isDigit_digitChar (by omega)) hdigits, ?_⟩
      rw [lowVal, hval, toNat_digitChar (by omega)]
      omega
    · obtain ⟨hdigits, hval⟩ := ih ha htail 0 (by decide) (by omega)
      rw [if_neg hneg, List.map_cons, show ((c.toNat - 48 : Nat) : Int) - borrow - d
        = ((c.toNat - 48 - borrow - d : Nat) : Int) by omega]
      rw [Nat.cast_zero] at hdigits hval
      refine ⟨.cons (isDigit_digitChar (by omega)) hdigits, ?_⟩
      rw [lowVal, hval, toNat_digitChar (by omega)]
      omega

theorem subtract_eq {a b : Numeral} (ha : Digits a) (hb : Digits b) :
    subtract a b = ofNat (val a - val b) := by
  rw [subtract, compare_eq ha hb]
  by_cases hlt : val a < val b
  · rw [if_pos (Nat.compare_eq_lt.2 hlt), show val a - val b = 0 by omega, ofNat_zero]
  · obtain ⟨hdigits, hval⟩ := subtractReversed_spec (digits_ofNat (val a)).reverse
      (digits_ofNat (val b)).reverse 0 (by decide)
      (by rw [lowVal_reverse, lowVal_reverse, val_ofNat, val_ofNat]; omega)
    rw [Nat.cast_zero] at hdigits hval
    rw [if_neg (fun h => hlt (Nat.compare_eq_lt.1 h)), differenceDigits, trim_eq_ofNat ha,
      trim_eq_ofNat hb, trim_eq_ofNat hdigits.reverse, val_reverse, hval, lowVal_reverse,
      lowVal_reverse, val_ofNat, val_ofNat, Nat.sub_zero]

/-! ### Division -/

/-- The number still to be divided, and what the digit that is written accounts for. -/
theorem divide_total (d r digit length rest : Nat) :
    r * 10 ^ (length + 1) + (digit * 10 ^ length + rest) =
      d * ((r * 10 + digit) / d * 10 ^ length) + ((r * 10 + digit) % d * 10 ^ length + rest) := by
  have hsplit : (r * 10 + digit) * 10 ^ length =
      d * ((r * 10 + digit) / d * 10 ^ length) + (r * 10 + digit) % d * 10 ^ length := by
    conv_lhs => rw [← Nat.div_add_mod (r * 10 + digit) d]
    ring
  rw [← Nat.add_assoc (d * _), ← hsplit]
  ring

private theorem divideFrom_spec {cs : List Char} (hcs : Digits cs) {d : Nat} (started : Bool) {r : Nat} (hr : r < d) :
    ∃ quotient : List Char, divideFrom d started r cs
        = (quotient, (((r * 10 ^ cs.length + val cs) % d : Nat) : Int)) ∧
      Digits quotient ∧ val quotient = (r * 10 ^ cs.length + val cs) / d ∧
      (started = true → quotient.length = cs.length) ∧ (started = false → quotient.head? ≠ some '0') := by
  induction cs generalizing started r with
  | nil =>
    refine ⟨[], ?_, digits_nil, ?_, fun _ => rfl, fun _ => by simp⟩
    · simp [divideFrom, Nat.mod_eq_of_lt hr]
    · simp [Nat.div_eq_of_lt hr]
  | cons c cs ih =>
    obtain ⟨hc, hcs⟩ := hcs.of_cons
    have hcr := isDigit_iff.1 hc
    have hd : 0 < d := by omega
    obtain ⟨current, hcurrent⟩ : ∃ current, current = r * 10 + (c.toNat - 48) := ⟨_, rfl⟩
    have hcast : (r : Int) * 10 + digitValue c = (current : Int) := by
      rw [digitValue_of_isDigit hc, hcurrent]
      push_cast
      rfl
    have hdigit : current / d < 10 := Nat.div_lt_of_lt_mul (by omega)
    have hleft : (current : Int) - (current : Int) / (d : Int) * (d : Int) = ((current % d : Nat) : Int) := by
      have := Int.emod_add_mul_ediv (current : Int) (d : Int)
      rw [Int.natCast_emod]
      linarith [mul_comm ((current : Int) / (d : Int)) (d : Int)]
    have hquot : (current : Int) / (d : Int) = ((current / d : Nat) : Int) := (Int.natCast_ediv _ _).symm
    have htotal := divide_total d r (c.toNat - 48) cs.length (val cs)
    rw [← hcurrent] at htotal
    rw [divideFrom, hcast, hleft, hquot, List.length_cons, val_cons, htotal,
      Nat.mul_add_mod, Nat.mul_add_div hd]
    by_cases hwrite : (started || decide (((current / d : Nat) : Int) ≠ 0)) = true
    · obtain ⟨quotient, heq, hdigits, hval, hlen, _⟩ := ih hcs true (Nat.mod_lt current hd)
      refine ⟨digitChar ((current / d : Nat) : Int) :: quotient, ?_, .cons (isDigit_digitChar hdigit) hdigits,
        ?_, ?_, ?_⟩
      · rw [if_pos (by simpa using hwrite), heq]
      · rw [val_cons, hval, hlen rfl, toNat_digitChar hdigit, Nat.add_sub_cancel]
      · intro _
        rw [List.length_cons, hlen rfl]
      · intro hstarted hhead
        rw [hstarted, Bool.false_or, decide_eq_true_eq] at hwrite
        have hzero := (digitChar_eq_zero_iff hdigit).1 (by simpa using hhead)
        rw [hzero] at hwrite
        exact hwrite rfl
    · rw [Bool.or_eq_true, decide_eq_true_eq, not_or, not_not] at hwrite
      have hstarted : started = false := by simpa using hwrite.1
      have hzero : current / d = 0 := by exact_mod_cast hwrite.2
      obtain ⟨quotient, heq, hdigits, hval, _, hhead⟩ := ih hcs false (Nat.mod_lt current hd)
      refine ⟨quotient, ?_, hdigits, ?_, ?_, fun _ => hhead rfl⟩
      · rw [if_neg (by simp [hstarted, hzero]), heq]
      · rw [hval, hzero, Nat.zero_mul, Nat.zero_add]
      · intro h
        rw [hstarted] at h
        exact absurd h (by decide)

theorem divide_eq {a : Numeral} (ha : Digits a) {d : Nat} (hd : 0 < d) :
    divide a d = (ofNat (val a / d), val a % d) := by
  obtain ⟨quotient, heq, hdigits, hval, _, hhead⟩ := divideFrom_spec (digits_ofNat (val a)) false hd
  rw [Nat.zero_mul, Nat.zero_add, val_ofNat] at heq hval
  rw [Nat.cast_zero] at heq
  rw [divide, trim_eq_ofNat ha, heq]
  cases quotient with
  | nil =>
    rw [val_nil] at hval
    rw [← hval, ofNat_zero]
    exact congrArg (Prod.mk ['0']) (Int.toNat_natCast _)
  | cons q qs =>
    simp only [Int.toNat_natCast]
    rw [← hval, ofNat_val_of_head hdigits (by simp) (hhead rfl)]

/-! ### The operations together -/

/-- The canonical text of a number: digits, of which the first is a zero in the text of zero alone. -/
structure Denotes (a : Numeral) (n : Nat) : Prop where
  digits : Digits a
  ne_nil : a ≠ []
  head : a.head? = some '0' → a = ['0']
  val_eq : val a = n

theorem eq_zero_of_head?_ofNat {n : Nat} (h : (ofNat n).head? = some '0') : ofNat n = ['0'] := by
  have htrim := trim_ofNat n
  have hhead := head?_dropWhile_zero (ofNat n)
  unfold trim at htrim
  split at htrim
  · exact htrim.symm
  · rename_i d ds hdrop
    rw [hdrop, htrim] at hhead
    exact absurd h hhead

/-- A number has one canonical text. -/
theorem denotes_iff {a : Numeral} {n : Nat} : Denotes a n ↔ a = ofNat n := by
  constructor
  · intro ⟨hdigits, hne, hzero, hval⟩
    by_cases hhead : a.head? = some '0'
    · obtain rfl := hzero hhead
      rw [← hval]
      exact ofNat_zero.symm
    · rw [← hval, ofNat_val_of_head hdigits hne hhead]
  · rintro rfl
    exact ⟨digits_ofNat n, ofNat_ne_nil n, eq_zero_of_head?_ofNat, val_ofNat n⟩

/-- Whatever is borrowed, a position of a difference holds a digit. -/
theorem mem_subtractReversed {a b : List Char} (ha : Digits a) (hb : Digits b) {borrow : Int} (hlow : 0 ≤ borrow)
    (hhigh : borrow ≤ 1) {d : Int} (hd : d ∈ subtractReversed a b borrow) : 0 ≤ d ∧ d < 10 := by
  induction a generalizing b borrow with
  | nil => simp [subtractReversed] at hd
  | cons c a ih =>
    obtain ⟨hc, ha⟩ := ha.of_cons
    have hcr := isDigit_iff.1 hc
    obtain ⟨e, tail, he, htail, -, hstep⟩ := subtractReversed_cons hb c a borrow
    rw [hstep, digitValue_of_isDigit hc] at hd
    split at hd
    · rcases List.mem_cons.1 hd with rfl | hd
      · omega
      · exact ih ha htail (by decide) le_rfl hd
    · rcases List.mem_cons.1 hd with rfl | hd
      · omega
      · exact ih ha htail le_rfl (by decide) hd

theorem hasDifference_of_digits {a b : Numeral} (ha : Digits a) (hb : Digits b) : hasDifference a b = true := by
  rw [hasDifference, Bool.or_eq_true, List.all_eq_true, differenceDigits, trim_eq_ofNat ha, trim_eq_ofNat hb]
  refine .inr fun d hd => ?_
  have hrange := mem_subtractReversed (digits_ofNat _).reverse (digits_ofNat _).reverse le_rfl (by decide) hd
  rw [Bool.and_eq_true, decide_eq_true_eq, decide_eq_true_eq]
  omega

theorem difference_of_digits {a b : Numeral} (ha : Digits a) (hb : Digits b) :
    difference a b = .ok (ofNat (val a - val b)) := by
  rw [difference, if_pos (hasDifference_of_digits ha hb), subtract_eq ha hb]

/-- Digit texts are divided by whatever is positive, and by nothing else. -/
theorem quotient_of_digits {a : Numeral} (ha : Digits a) (divisor : Int) :
    quotient a divisor = if divisor ≤ 0 then .error .divisorNotPositive
      else .ok (ofNat (val a / divisor.toNat), val a % divisor.toNat) := by
  rw [quotient]
  split
  · rfl
  · rw [divide_eq ha (by omega)]

/-- The operations on digit texts of any length, leading zeros included, are those on the numbers that the texts
denote, and the texts that they write are canonical. -/
theorem operations_denote {a b : Numeral} (ha : Digits a) (hb : Digits b) :
    (compare a b).Compares (val a) (val b) ∧ Denotes (add a b) (val a + val b) ∧
      (hasDifference a b = true ∧ Denotes (subtract a b) (val a - val b)) ∧
      (∀ factor : Int, Denotes (multiply a factor) (val a * (max factor 0).toNat)) ∧
      ∀ d : Nat, 0 < d → Denotes (divide a d).1 (val a / d) ∧ (divide a d).2 = val a % d := by
  refine ⟨?_, denotes_iff.2 (add_eq ha hb), ⟨hasDifference_of_digits ha hb, denotes_iff.2 (subtract_eq ha hb)⟩,
    fun factor => ?_, fun d hd => ?_⟩
  · rw [compare_eq ha hb]
    exact compare_iff _ _ |>.1 rfl
  · rw [denotes_iff, multiply_eq ha]
    congr 2
    omega
  · rw [divide_eq ha hd]
    exact ⟨denotes_iff.2 rfl, rfl⟩

/-- The borrow runs through two zeros, and the quotient loses the zeros in front. -/
theorem operations_denote_padded : Digits "00100".toList ∧ Digits "9".toList ∧
    compare "00100".toList "9".toList = .gt ∧ Denotes (subtract "00100".toList "9".toList) 91 ∧
    Denotes (divide "00100".toList 7).1 14 := by
  have ha : Digits "00100".toList := by
    rw [Digits, List.forall_mem_iff_forall_getElem]
    decide
  have hb : Digits "9".toList := digits_singleton rfl
  obtain ⟨-, -, ⟨-, hsubtract⟩, -, hdivide⟩ := operations_denote ha hb
  exact ⟨ha, hb, rfl, hsubtract, (hdivide 7 (by decide)).1⟩

end MessageCodec.Numeral
