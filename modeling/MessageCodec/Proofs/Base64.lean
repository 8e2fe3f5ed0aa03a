import Mathlib.Tactic
import MessageCodec.Text.Base64

/-!
# Base64 text

Bytes written as padded base64 are read back. The written text has no blanks and comes in whole groups
of four, so neither the dropping of blanks nor the completion of padding touches it.
-/

namespace MessageCodec.Base64

theorem digitValue?_digit {n : Nat} (h : n < 64) : digitValue? (digit n) = some n := by
  have hall : ∀ n : Fin 64, digitValue? (digit n) = some (n : Nat) := by decide
  exact hall ⟨n, h⟩

theorem digit_ne_pad {n : Nat} (h : n < 64) : digit n ≠ '=' := by
  have hall : ∀ n : Fin 64, digit n ≠ '=' := by decide
  exact hall ⟨n, h⟩

theorem isBlank_digit {n : Nat} (h : n < 64) : Text.isBlank (digit n) = false := by
  have hall : ∀ n : Fin 64, Text.isBlank (digit n) = false := by decide
  exact hall ⟨n, h⟩

/-- Reading a digit moves the group on by one place. -/
theorem readFrom_digit (phase : Phase) {n : Nat} (h : n < 64) (rest : List Char) :
    readFrom phase 0 (digit n :: rest) = (readFrom (phase.push n).1 0 rest).map ((phase.push n).2 ++ ·) := by
  conv_lhs => unfold readFrom
  rw [if_neg (digit_ne_pad h), digitValue?_digit h]
  rfl

private theorem toUInt8_eq {n : Nat} {b : UInt8} (h : n = b.toNat) : n.toUInt8 = b := by
  rw [h]
  exact UInt8.ofNat_toNat

theorem readFrom_encode (bs : List UInt8) : readFrom .start 0 (encode bs) = some bs := by
  induction bs using encode.induct with
  | case1 => rfl
  | case2 a =>
    have ha := a.toNat_lt
    rw [encode, readFrom_digit _ (by omega), Phase.push, readFrom_digit _ (by omega)]
    simp only [Phase.push, readFrom, Phase.closedBy]
    simp only [if_true, List.nil_append, Option.map_some]
    rw [toUInt8_eq (b := a) (by omega)]
    simp
  | case3 a b =>
    have ha := a.toNat_lt
    have hb := b.toNat_lt
    rw [encode, readFrom_digit _ (by omega), Phase.push, readFrom_digit _ (by omega), Phase.push,
      readFrom_digit _ (by omega)]
    simp only [Phase.push, readFrom, Phase.closedBy]
    rw [toUInt8_eq (b := a) (by omega), toUInt8_eq (b := b) (by omega)]
    simp
  | case4 a b c rest ih =>
    have ha := a.toNat_lt
    have hb := b.toNat_lt
    have hc := c.toNat_lt
    rw [encode, readFrom_digit _ (by omega), Phase.push, readFrom_digit _ (by omega), Phase.push,
      readFrom_digit _ (by omega), Phase.push, readFrom_digit _ (by omega), Phase.push, ih]
    rw [toUInt8_eq (b := a) (by omega), toUInt8_eq (b := b) (by omega), toUInt8_eq (b := c) (by omega)]
    rfl

theorem length_encode (bs : List UInt8) : (encode bs).length % 4 = 0 := by
  induction bs using encode.induct with
  | case1 => rfl
  | case2 a => simp [encode]
  | case3 a b => simp [encode]
  | case4 a b c rest ih =>
    rw [encode]
    simp only [List.length_cons]
    omega

theorem isBlank_of_mem_encode (bs : List UInt8) : ∀ c ∈ encode bs, Text.isBlank c = false := by
  induction bs using encode.induct with
  | case1 => simp [encode]
  | case2 a =>
    have ha := a.toNat_lt
    simp only [encode, List.mem_cons, List.not_mem_nil, or_false]
    rintro c (rfl | rfl | rfl | rfl)
    · exact isBlank_digit (by omega)
    · exact isBlank_digit (by omega)
    · decide
    · decide
  | case3 a b =>
    have ha := a.toNat_lt
    have hb := b.toNat_lt
    simp only [encode, List.mem_cons, List.not_mem_nil, or_false]
    rintro c (rfl | rfl | rfl | rfl)
    · exact isBlank_digit (by omega)
    · exact isBlank_digit (by omega)
    · exact isBlank_digit (by omega)
    · decide
  | case4 a b c rest ih =>
    have ha := a.toNat_lt
    have hb := b.toNat_lt
    have hc := c.toNat_lt
    simp only [encode, List.mem_cons]
    rintro d (rfl | rfl | rfl | rfl | hd)
    · exact isBlank_digit (by omega)
    · exact isBlank_digit (by omega)
    · exact isBlank_digit (by omega)
    · exact isBlank_digit (by omega)
    · exact ih d hd

theorem decodeStrict_encode (bs : List UInt8) : decodeStrict (encode bs) = some bs := by
  have hread := readFrom_encode bs
  unfold decodeStrict
  split
  · rename_i rest hpad
    -- padding first closes no group, so it cannot be read
    exfalso
    cases bs with
    | nil => simp [encode] at hpad
    | cons a tail =>
      have ha := a.toNat_lt
      have hhead : ∃ more, encode (a :: tail) = digit (a.toNat / 4) :: more := by
        match tail with
        | [] => exact ⟨_, rfl⟩
        | [b] => exact ⟨_, rfl⟩
        | b :: c :: more => exact ⟨_, rfl⟩
      obtain ⟨more, hmore⟩ := hhead
      rw [hmore] at hpad
      exact digit_ne_pad (by omega) (List.cons.inj hpad).1
  · exact hread

/-- Bytes are read back from their text. -/
theorem decode_encode (bs : List UInt8) : decode (encode bs) = bs := by
  have hblank : Text.removeBlanks (encode bs) = encode bs :=
    List.filter_eq_self.2 fun c hc => by rw [isBlank_of_mem_encode bs c hc]; rfl
  have hpad : pad (encode bs) = encode bs := by
    rw [pad, length_encode]
    exact List.append_nil _
  rw [decode, hblank, hpad, decodeStrict_encode, Option.getD_some]

end MessageCodec.Base64
