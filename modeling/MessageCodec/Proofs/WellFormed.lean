import MessageCodec.Proofs.Element

/-!
# Well-formed messages

What a message promises so that its values can be told apart on the wire and under their keys: numbers
of its own for every field, keys that no other field uses, and a first key under which a decoded value
is found again. A closed set of codecs has every message that a field of one of them holds.
-/

namespace MessageCodec

open Codec

structure Codec.Field.WellFormed (cs : Codecs) (f : Field) : Prop where
  number_pos : 1 ≤ f.number
  number_lt : f.number < 0x20000000
  packed : f.packed = true → f.repeated = true ∧ ∃ type, f.type = .element type ∧ type.isPackable = true
  sound : ∀ type, f.type = .element type → type.Sound
  child : ∀ name, f.type = .message name → ∃ inner, cs.codec? name = some inner
  default : f.repeated = false → f.presence = false → ∀ type, f.type = .element type → f.default = type.zero
  outputs_nodup : f.outputs.Nodup
  read_back : ∃ first rest, f.outputs = first :: rest ∧ first ∈ f.keys

/-- The promises of a field about what it holds: types whose tables agree, messages that can be asked for, and
zero as the default where presence is not kept. -/
structure Codec.Field.Steady (cs : Codecs) (f : Field) : Prop where
  sound : ∀ type, f.type = .element type → type.Sound
  child : ∀ name, f.type = .message name → ∃ inner, cs.codec? name = some inner
  default : f.repeated = false → f.presence = false → ∀ type, f.type = .element type → f.default = type.zero

theorem Codec.Field.WellFormed.steady {cs : Codecs} {f : Field} (h : f.WellFormed cs) : f.Steady cs :=
  ⟨h.sound, h.child, h.default⟩

structure Codec.WellFormed (cs : Codecs) (c : Codec) : Prop where
  fields : ∀ f ∈ c.fields, f.WellFormed cs
  numbers : (c.fields.map Field.number).Nodup
  outputs : ∀ f ∈ c.fields, ∀ g ∈ c.fields, ∀ key ∈ f.outputs, key ∈ g.outputs → f = g
  keys : ∀ f ∈ c.fields, ∀ g ∈ c.fields, ∀ key ∈ f.keys, key ∈ g.outputs → f = g
  unknown_outputs : ∀ f ∈ c.fields, unknownKey ∉ f.outputs
  unknown_keys : ∀ f ∈ c.fields, unknownKey ∉ f.keys

/-- Every message that can be asked for is well-formed. -/
def Codecs.Closed (cs : Codecs) : Prop := ∀ name c, cs.codec? name = some c → c.WellFormed cs

namespace Codec

/-- The fields of a message stay apart on the wire and in a decoded message. -/
structure Separate (c : Codec) : Prop where
  numbers : (c.fields.map Field.number).Nodup
  outputs_nodup : ∀ f ∈ c.fields, f.outputs.Nodup
  outputs : ∀ f ∈ c.fields, ∀ g ∈ c.fields, ∀ key ∈ f.outputs, key ∈ g.outputs → f = g

/-- Every field is decoded to some key, and none to the key of kept records. -/
structure Placed (c : Codec) : Prop extends c.Separate where
  outputs_ne_nil : ∀ f ∈ c.fields, f.outputs ≠ []
  unknown_outputs : ∀ f ∈ c.fields, unknownKey ∉ f.outputs

/-- Every message that a field holds can be asked for. -/
def Linked (cs : Codecs) (c : Codec) : Prop :=
  ∀ f ∈ c.fields, ∀ name, f.type = .message name → ∃ inner, cs.codec? name = some inner

/-- A value of one field is never found under the keys of another. -/
structure Unmixed (c : Codec) : Prop extends c.Separate where
  keys : ∀ f ∈ c.fields, ∀ g ∈ c.fields, ∀ key ∈ f.keys, key ∈ g.outputs → f = g
  read_back : ∀ f ∈ c.fields, ∃ first rest, f.outputs = first :: rest ∧ first ∈ f.keys
  unknown_outputs : ∀ f ∈ c.fields, unknownKey ∉ f.outputs
  unknown_keys : ∀ f ∈ c.fields, unknownKey ∉ f.keys

theorem WellFormed.unmixed {cs : Codecs} {c : Codec} (h : c.WellFormed cs) : c.Unmixed where
  numbers := h.numbers
  outputs_nodup f hf := (h.fields f hf).outputs_nodup
  outputs := h.outputs
  keys := h.keys
  read_back f hf := (h.fields f hf).read_back
  unknown_outputs := h.unknown_outputs
  unknown_keys := h.unknown_keys

theorem WellFormed.linked {cs : Codecs} {c : Codec} (h : c.WellFormed cs) : c.Linked cs :=
  fun f hf => (h.fields f hf).child

theorem Unmixed.placed {c : Codec} (h : c.Unmixed) : c.Placed where
  toSeparate := h.toSeparate
  outputs_ne_nil f hf hnil := by
    obtain ⟨first, rest, houtputs, -⟩ := h.read_back f hf
    rw [hnil] at houtputs
    cases houtputs
  unknown_outputs := h.unknown_outputs

/-- A number belongs to one field. -/
theorem Separate.eq_of_number {c : Codec} (h : c.Separate) {f g : Field} (hf : f ∈ c.fields) (hg : g ∈ c.fields)
    (hnumber : f.number = g.number) : f = g :=
  List.inj_on_of_nodup_map h.numbers hf hg hnumber

theorem Field.number_of_arm? {f : Field} {number code : Nat} {arm : Arm} (h : f.arm? number code = some arm) :
    (number : Int) = f.number := by
  unfold Field.arm? at h
  split at h
  · simp at h
  · rename_i hnumber
    exact not_not.1 hnumber

theorem Field.type_of_arm?_message {f : Field} {number code : Nat} {child : String}
    (h : f.arm? number code = some (.message child)) : f.type = .message child := by
  unfold Field.arm? at h
  split at h
  · simp at h
  · split at h
    · split at h
      · simp at h
      · split at h <;> simp at h
    · rename_i hne htype
      split at h
      · rw [htype, Arm.message.inj (Option.some.inj h)]
      · simp at h

theorem arm?_eq_none_of_mem {c : Codec} {f : Field} (hf : f ∈ c.fields) {number code : Nat}
    (h : c.arm? number code = none) : f.arm? number code = none := by
  rw [Codec.arm?, List.findSome?_eq_none_iff] at h
  exact Option.map_eq_none_iff.1 (h f hf)

/-- The arm for a record is that of the field with its number. -/
theorem arm?_of_mem {c : Codec} (hnumbers : (c.fields.map Field.number).Nodup) {f : Field} (hf : f ∈ c.fields)
    {number code : Nat} {arm : Arm} (harm : f.arm? number code = some arm) :
    c.arm? number code = some (f, arm) := by
  cases hfind : c.arm? number code with
  | none =>
    rw [arm?_eq_none_of_mem hf hfind] at harm
    simp at harm
  | some found =>
    obtain ⟨g, arm'⟩ := found
    obtain ⟨hg, harm'⟩ := arm?_some hfind
    have hnumber := (Field.number_of_arm? harm).symm.trans (Field.number_of_arm? harm')
    obtain rfl := List.inj_on_of_nodup_map hnumbers hf hg hnumber
    rw [harm] at harm'
    rw [Option.some.inj harm']

theorem Separate.arm?_of_mem {c : Codec} (h : c.Separate) {f : Field} (hf : f ∈ c.fields)
    {number code : Nat} {arm : Arm} (harm : f.arm? number code = some arm) :
    c.arm? number code = some (f, arm) :=
  Codec.arm?_of_mem h.numbers hf harm

end Codec

end MessageCodec
