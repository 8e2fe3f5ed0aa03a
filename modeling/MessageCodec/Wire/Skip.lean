import MessageCodec.Wire.Delimited

/-!
# Passing over a field

The payload of a field that nobody claims. A group goes on to the end tag of its own number, with
complete fields in between; anything else is malformed.
-/

namespace MessageCodec.Wire

inductive WireType where
  | varint
  | fixed64
  | delimited
  | startGroup
  | endGroup
  | fixed32
deriving DecidableEq

namespace WireType

def code : WireType → Nat
  | varint => 0
  | fixed64 => 1
  | delimited => 2
  | startGroup => 3
  | endGroup => 4
  | fixed32 => 5

/-- The form with a number; six and seven have none. -/
def ofCode? : Nat → Option WireType
  | 0 => some varint
  | 1 => some fixed64
  | 2 => some delimited
  | 3 => some startGroup
  | 4 => some endGroup
  | 5 => some fixed32
  | _ => none

end WireType

def skipVarint : (left : Nat) → List UInt8 → Option (List UInt8)
  | 0, _ => none
  | _ + 1, [] => none
  | left + 1, b :: rest => if b.toNat < 128 then some rest else skipVarint left rest

def skipPlain (form : WireType) (bs : List UInt8) : Option (List UInt8) :=
  match form with
  | .varint => skipVarint maxVarintBytes bs
  | .fixed64 => (take 8 bs).map Prod.snd
  | .fixed32 => (take 4 bs).map Prod.snd
  | .delimited => (readDelimited bs).map Prod.snd
  | .startGroup | .endGroup => none

mutual

/-- Pass over the payload of a field with a wire type code and a number. -/
def skip (code number : Nat) (bs : List UInt8) : Option (List UInt8) :=
  match WireType.ofCode? code with
  | none => none
  | some .startGroup => skipGroup number bs
  | some form => skipPlain form bs
termination_by (bs.length, 1)

/-- Pass over fields up to the end tag of a group. -/
def skipGroup (number : Nat) (bs : List UInt8) : Option (List UInt8) :=
  match h : readVarint32 bs with
  | none => none
  | some (tag, rest) =>
    have := readVarint32_lt h
    if tag % 8 = WireType.endGroup.code then
      if tag / 8 = number then some rest else none
    else
      match skip (tag % 8) (tag / 8) rest with
      | none => none
      | some after => if after.length < rest.length then skipGroup number after else none
termination_by (bs.length, 0)

end

theorem skipVarint_lt {left : Nat} {bs rest : List UInt8} (h : skipVarint left bs = some rest) :
    rest.length < bs.length := by
  induction left generalizing bs with
  | zero => simp [skipVarint] at h
  | succ left ih =>
    match bs with
    | [] => simp [skipVarint] at h
    | b :: tail =>
      simp only [skipVarint] at h
      split at h
      · simp only [Option.some.injEq] at h
        simp [h]
      · exact Nat.lt_succ_of_lt (ih h)

theorem skipPlain_lt {form : WireType} {bs rest : List UInt8} (h : skipPlain form bs = some rest) :
    rest.length < bs.length := by
  have snd {r : Reader (List UInt8)} (hr : r.Advances) (h : (r bs).map Prod.snd = some rest) :
      rest.length < bs.length := by
    obtain ⟨⟨payload, after⟩, hp, rfl⟩ := Option.map_eq_some_iff.1 h
    exact hr bs payload _ hp
  match form with
  | .varint => exact skipVarint_lt h
  | .fixed64 => exact snd (take_advances (by decide)) h
  | .fixed32 => exact snd (take_advances (by decide)) h
  | .delimited => exact snd readDelimited_advances h
  | .startGroup | .endGroup => simp [skipPlain] at h

theorem skipGroup_lt {number : Nat} {bs rest : List UInt8} (h : skipGroup number bs = some rest) :
    rest.length < bs.length := by
  induction hn : bs.length using Nat.strongRecOn generalizing bs with
  | _ n ih =>
    rw [skipGroup] at h
    split at h
    · simp at h
    · rename_i tag after hr
      have := readVarint32_lt hr
      dsimp only at h
      split at h
      · split at h
        · simp only [Option.some.injEq] at h
          subst h
          omega
        · simp at h
      · split at h
        · simp at h
        · split at h
          · have := ih _ (by omega) h rfl
            omega
          · simp at h

/-- Passing over a payload uses up at least one byte. -/
theorem skip_lt {code number : Nat} {bs rest : List UInt8} (h : skip code number bs = some rest) :
    rest.length < bs.length := by
  rw [skip] at h
  split at h
  · simp at h
  · exact skipGroup_lt h
  · exact skipPlain_lt h

/-- The position after a payload, or the same position where it is malformed. -/
def skipAt (data : List UInt8) (cursor code number : Nat) : Nat :=
  match skip code number (data.drop cursor) with
  | some rest => data.length - rest.length
  | none => cursor

/-- The same for a code and a number of either sign. A negative code is that of no form, and a negative number
that of no group, like one that does not fit into a tag. -/
def skipFieldAt (data : List UInt8) (cursor : Nat) (code number : Int) : Nat :=
  skipAt data cursor (if code < 0 then 8 else code.toNat) (if number < 0 then 0x100000000 else number.toNat)

end MessageCodec.Wire
