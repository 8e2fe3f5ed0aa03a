import MessageCodec.Wire.Skip

/-!
# Records of a strict message

A message that must be well formed: a sequence of records up to its last byte. A tag takes at most five
bytes and fits in 32 bits, a length at most five bytes and fits in 31 bits, any other number at most ten
bytes. Groups are passed over, but what is in them must be well formed too.
-/

namespace MessageCodec.Wire

inductive RecordPayload where
  /-- A number, modulo `2^64`. -/
  | varint (n : Nat)
  | block (bytes : List UInt8)
  /-- A payload whose content does not matter here. -/
  | other

abbrev Record := Nat × RecordPayload

/-- Read groups of seven bits onto a number, at most `left` bytes. -/
def wholeVarintFrom (sum weight : Nat) : (left : Nat) → Reader Nat
  | 0, _ => none
  | _ + 1, [] => none
  | left + 1, b :: rest =>
    let total := sum + b.toNat % 128 * weight
    if b.toNat < 128 then some (total, rest) else wholeVarintFrom total (weight * 128) left rest

/-- Read a number of limited length and size. -/
def boundedVarint (bytes bound : Nat) : Reader Nat := fun bs =>
  match wholeVarintFrom 0 1 bytes bs with
  | some (n, rest) => if n < bound then some (n, rest) else none
  | none => none

def strictTag : Reader (Nat × Nat) := fun bs =>
  match boundedVarint 5 0x100000000 bs with
  | some (tag, rest) => if tag / 8 = 0 then none else some ((tag / 8, tag % 8), rest)
  | none => none

def strictBlock : Reader (List UInt8) := fun bs =>
  match boundedVarint 5 0x80000000 bs with
  | some (length, rest) => take length rest
  | none => none

def plainPayload (form : WireType) : Reader RecordPayload :=
  match form with
  | .varint => (wholeVarintFrom 0 1 maxVarintBytes).map fun n => .varint (n % 0x10000000000000000)
  | .fixed64 => (take 8).map fun _ => .other
  | .fixed32 => (take 4).map fun _ => .other
  | .delimited => strictBlock.map .block
  | .startGroup | .endGroup => fun _ => none

theorem wholeVarintFrom_lt {sum weight left n : Nat} {bs rest : List UInt8}
    (h : wholeVarintFrom sum weight left bs = some (n, rest)) : rest.length < bs.length := by
  induction left generalizing sum weight bs with
  | zero => simp [wholeVarintFrom] at h
  | succ left ih =>
    match bs with
    | [] => simp [wholeVarintFrom] at h
    | b :: tail =>
      simp only [wholeVarintFrom] at h
      split at h
      · obtain ⟨_, rfl⟩ := Prod.mk.inj (Option.some.inj h)
        simp
      · exact Nat.lt_succ_of_lt (ih h)

theorem boundedVarint_advances (bytes bound : Nat) : (boundedVarint bytes bound).Advances := by
  intro bs n rest h
  unfold boundedVarint at h
  split at h
  · rename_i m after hr
    split at h
    · simp only [Option.some.injEq, Prod.mk.injEq] at h
      exact h.2 ▸ wholeVarintFrom_lt hr
    · simp at h
  · simp at h

theorem strictTag_advances : strictTag.Advances := by
  intro bs a rest h
  unfold strictTag at h
  split at h
  · rename_i tag after hr
    split at h
    · simp at h
    · simp only [Option.some.injEq, Prod.mk.injEq] at h
      exact h.2 ▸ boundedVarint_advances _ _ _ _ _ hr
  · simp at h

theorem strictBlock_advances : strictBlock.Advances := by
  intro bs a rest h
  unfold strictBlock at h
  split at h
  · rename_i length after hr
    have := boundedVarint_advances _ _ _ _ _ hr
    have := length_take_add h
    omega
  · simp at h

theorem plainPayload_advances (form : WireType) : (plainPayload form).Advances := by
  cases form
  case varint => exact Reader.Advances.map (fun _ _ _ h => wholeVarintFrom_lt h) _
  case fixed64 => exact (take_advances (by decide)).map _
  case fixed32 => exact (take_advances (by decide)).map _
  case delimited => exact strictBlock_advances.map _
  all_goals
    intro bs a rest h
    simp [plainPayload] at h

/-- Pass over the records of a group, which ends with a tag of its own number. The numbers of the groups
still open stand in front, innermost first. -/
def closeGroups (opened : List Nat) (bs : List UInt8) : Option (List UInt8) :=
  match opened with
  | [] => some bs
  | innermost :: outer =>
    match ht : strictTag bs with
    | none => none
    | some ((number, code), rest) =>
      have := strictTag_advances _ _ _ ht
      match WireType.ofCode? code with
      | none => none
      | some .startGroup => closeGroups (number :: opened) rest
      | some .endGroup => if number = innermost then closeGroups outer rest else none
      | some form =>
        match hp : plainPayload form rest with
        | none => none
        | some (_, after) =>
          have := plainPayload_advances form _ _ _ hp
          closeGroups opened after
termination_by bs.length

/-- The records of a message, if it is well formed. -/
def records? (bs : List UInt8) : Option (List Record) :=
  if bs.isEmpty then some []
  else
    match ht : strictTag bs with
    | none => none
    | some ((number, code), rest) =>
      have := strictTag_advances _ _ _ ht
      match WireType.ofCode? code with
      | none => none
      | some .startGroup =>
        match closeGroups [number] rest with
        | none => none
        | some after =>
          if after.length < bs.length then (records? after).map ((number, .other) :: ·) else none
      | some form =>
        match hp : plainPayload form rest with
        | none => none
        | some (payload, after) =>
          have := plainPayload_advances form _ _ _ hp
          (records? after).map ((number, payload) :: ·)
termination_by bs.length

end MessageCodec.Wire
