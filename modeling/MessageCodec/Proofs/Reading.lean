import MessageCodec.Proofs.Encoding
import MessageCodec.Proofs.Plan

/-!
# Where decoded values come from

Every value in a decoded message was yielded by the reader of its type, is a decoded message of fewer
bytes, or is the zero that an absent field is filled in with. A decoded message is asked for the value
of a field by the keys of the field, and answers with what it was decoded to.
-/

namespace MessageCodec

open Codec Wire

/-! ### Values under keys -/

namespace Value

theorem field?_eq_findSome? (keys : List String) (v : Value) :
    v.field? keys = keys.findSome? fun key => v.field? [key] := by
  simp only [field?, List.findSome?_cons, List.findSome?_nil]
  congr 1
  funext key
  cases v.member? key with
  | none => rfl
  | some w => cases hnull : w.isNull <;> simp [hnull]

theorem field?_mapping_singleton (entries : Entries) (key : String) :
    (mapping entries).field? [key] = (entries.get? key).filter fun w => !w.isNull := by
  rw [field?, List.findSome?_cons, List.findSome?_nil, member?]
  cases entries.get? key with
  | none => rfl
  | some w => cases hnull : w.isNull <;> simp [hnull, Option.filter]

theorem exists_get?_of_field? {entries : Entries} {keys : List String} {v : Value}
    (h : (mapping entries).field? keys = some v) : ∃ key ∈ keys, entries.get? key = some v := by
  rw [field?_eq_findSome?] at h
  obtain ⟨key, hkey, hv⟩ := List.exists_of_findSome?_eq_some h
  rw [field?_mapping_singleton, Option.filter_eq_some_iff] at hv
  exact ⟨key, hkey, hv.1⟩

end Value

namespace Codec

/-- A value under the output keys of a field, and nothing under its other keys, is found again. -/
theorem Field.field?_of_held {f : Field} (hread : ∃ first rest, f.outputs = first :: rest ∧ first ∈ f.keys)
    {entries : Entries} {held : Option Value} (houtputs : ∀ key ∈ f.outputs, entries.get? key = held)
    (hother : ∀ key ∈ f.keys, key ∉ f.outputs → entries.get? key = none)
    (hnull : ∀ w, held = some w → w.isNull = false) : (Value.mapping entries).field? f.keys = held := by
  obtain ⟨first, rest, hfirst, hmem⟩ := hread
  have hheld : held.filter (fun w => !w.isNull) = held := by
    cases held with
    | none => rfl
    | some w => simp [hnull w rfl]
  have hstep : ∀ key ∈ f.keys, (Value.mapping entries).field? [key] = if key ∈ f.outputs then held else none := by
    intro key hkey
    rw [Value.field?_mapping_singleton]
    by_cases hout : key ∈ f.outputs
    · rw [houtputs key hout, if_pos hout, hheld]
    · rw [hother key hkey hout, if_neg hout, Option.filter_none]
  -- whichever key is found first, it is an output, and the outputs hold one value
  rw [Value.field?_eq_findSome?]
  cases hfind : f.keys.findSome? fun key => (Value.mapping entries).field? [key] with
  | none =>
    rw [List.findSome?_eq_none_iff] at hfind
    rw [← hfind first hmem, hstep first hmem, if_pos (hfirst ▸ List.mem_cons_self)]
  | some u =>
    obtain ⟨key, hkey, hu⟩ := List.exists_of_findSome?_eq_some hfind
    rw [hstep key hkey] at hu
    split at hu
    · exact hu.symm
    · simp at hu

end Codec

/-! ### Values and their records -/

theorem Wire.exists_of_mem_readAll {α : Type} {r : Reader α} {bs : List UInt8} {a : α} (h : a ∈ readAll r bs) :
    ∃ bs' rest, r bs' = some (a, rest) := by
  induction hn : bs.length using Nat.strongRecOn generalizing bs with
  | _ n ih =>
    rw [readAll] at h
    split at h
    · simp at h
    · split at h
      · simp at h
      · rename_i b rest hread
        split at h
        · rename_i hlt
          rcases List.mem_cons.1 h with rfl | hmem
          · exact ⟨bs, rest, hread⟩
          · exact ih rest.length (by omega) hmem rfl
        · simp at h

namespace Codec

theorem Field.type_of_arm?_element {f : Field} {number code : Nat} {type : ElementType}
    (h : f.arm? number code = some (.packed type) ∨ f.arm? number code = some (.single type)) :
    f.type = .element type := by
  unfold Field.arm? at h
  split at h
  · simp at h
  · cases htype : f.type with
    | message name =>
      rw [htype] at h
      dsimp only at h
      split at h <;> simp at h
    | element type' =>
      rw [htype] at h
      dsimp only at h
      split at h
      · simp at h
        rw [h]
      · split at h
        · simp at h
          rw [h]
        · simp at h

/-- A value that a field is decoded to from fewer bytes than some number. -/
def Field.Yields (cs : Codecs) (f : Field) (bound : Nat) (u : Value) : Prop :=
  match f.type with
  | .element type => type.Decoded u
  | .message name => ∃ inner block, cs.codec? name = some inner ∧ block.length < bound ∧
      cs.decode inner block = .ok u

end Codec

namespace Codecs

theorem isNull_of_decode {cs : Codecs} {c : Codec} {w : List UInt8} {v : Value} (h : cs.decode c w = .ok v) :
    v.isNull = false := by
  obtain ⟨g, _, heq⟩ := bind_eq_ok.1 h
  rw [← Except.ok.inj heq]
  rfl

theorem isNull_of_yields {cs : Codecs} {f : Field} {bound : Nat} {u : Value} (h : f.Yields cs bound u) :
    u.isNull = false := by
  rw [Field.Yields] at h
  split at h
  · exact ElementType.isNull_of_decoded h
  · obtain ⟨_, _, _, _, hdecode⟩ := h
    exact isNull_of_decode hdecode

theorem yields_of_mem_values {cs : Codecs} {f : Field} {number code : Nat} {arm : Arm}
    (harm : f.arm? number code = some arm) {payload : List UInt8} {u : Value} (h : u ∈ cs.values arm payload) :
    f.Yields cs payload.length u := by
  obtain ⟨vs, hvs⟩ : ∃ vs, cs.valuesOf arm payload = .ok vs := by
    rw [values] at h
    cases hvalues : cs.valuesOf arm payload with
    | ok vs => exact ⟨vs, rfl⟩
    | error e =>
      rw [hvalues] at h
      simp [Except.toOption] at h
  rw [values_of_ok hvs] at h
  rw [Field.Yields]
  cases arm with
  | packed type =>
    rw [Field.type_of_arm?_element (Or.inl harm)]
    obtain rfl := Except.ok.inj hvs
    cases hread : readDelimited payload with
    | none =>
      rw [hread] at h
      simp at h
    | some found =>
      rw [hread] at h
      obtain ⟨bs, rest, hu⟩ := exists_of_mem_readAll h
      exact ElementType.decoded_of_reader hu
  | single type =>
    rw [Field.type_of_arm?_element (Or.inr harm)]
    obtain rfl := Except.ok.inj hvs
    rw [Option.mem_toList, Option.map_eq_some_iff] at h
    obtain ⟨⟨_, rest⟩, hu, rfl⟩ := h
    exact ElementType.decoded_of_reader hu
  | message name =>
    rw [Field.type_of_arm?_message harm]
    rw [valuesOf] at hvs
    obtain ⟨inner, hinner, hrest⟩ := bind_eq_ok.1 hvs
    split at hrest
    · rw [← Except.ok.inj hrest] at h
      simp at h
    · rename_i block rest hread
      obtain ⟨v, hv, heq⟩ := bind_eq_ok.1 hrest
      rw [← Except.ok.inj heq, List.mem_singleton] at h
      subst h
      have hlt := readDelimited_lt hread
      exact ⟨inner, block, child_eq_ok.1 hinner, by omega, hv⟩

private theorem yields_mono {cs : Codecs} {f : Field} {m n : Nat} (hle : m ≤ n) {u : Value} (h : f.Yields cs m u) :
    f.Yields cs n u := by
  rw [Field.Yields] at h ⊢
  split
  · rename_i type htype
    rw [htype] at h
    exact h
  · rename_i name htype
    rw [htype] at h
    obtain ⟨inner, block, hinner, hlt, hdecode⟩ := h
    exact ⟨inner, block, hinner, by omega, hdecode⟩

/-- The values in the records of a field are ones that it yields. -/
theorem yields_of_mem_hits {cs : Codecs} {f : Field} {w : List UInt8} {rs : List Slice} (htiles : Tiles w rs)
    {vs : List Value} (hvs : vs ∈ cs.hits f rs) {u : Value} (hu : u ∈ vs) : f.Yields cs w.length u := by
  obtain ⟨r, hr, hhit⟩ := List.mem_filterMap.1 hvs
  obtain ⟨arm, harm, rfl⟩ := Option.map_eq_some_iff.1 hhit
  exact yields_mono (length_payload_le htiles hr) (yields_of_mem_values harm hu)

theorem entry_of_repeated {f : Field} (h : f.repeated = true) (hits : List (List Value)) :
    f.entry true hits = some (.list hits.flatten) := by
  rw [Field.entry, Field.gathered, Field.fallback, if_pos h, if_pos h]
  cases hits <;> rfl

theorem eq_list_of_entry {f : Field} (h : f.repeated = true) {fill : Bool} {hits : List (List Value)} {w : Value}
    (hentry : f.entry fill hits = some w) : w = .list hits.flatten := by
  cases fill with
  | true =>
    rw [entry_of_repeated h] at hentry
    exact (Option.some.inj hentry).symm
  | false =>
    rw [Field.entry, Field.gathered, if_pos h] at hentry
    cases hits with
    | nil => simp at hentry
    | cons vs hits => simpa using hentry.symm

/-- What a field is decoded to comes from its records or is the zero of its type. -/
theorem mem_itemsOf_entry {cs : Codecs} {f : Field} (hf : f.Steady cs) {fill : Bool} {hits : List (List Value)}
    {w item : Value} (hentry : f.entry fill hits = some w) (hitem : item ∈ f.itemsOf w) :
    (∃ vs ∈ hits, item ∈ vs) ∨ ∃ type, f.type = .element type ∧ item = type.zero := by
  cases hrepeated : f.repeated with
  | true =>
    rw [eq_list_of_entry hrepeated hentry, Field.itemsOf, if_pos hrepeated] at hitem
    obtain ⟨vs, hvs, hmem⟩ := List.mem_flatten.1 hitem
    exact Or.inl ⟨vs, hvs, hmem⟩
  | false =>
    have hsingular : ¬ f.repeated = true := by rw [hrepeated]; simp
    rw [Field.itemsOf, if_neg hsingular, List.mem_singleton] at hitem
    subst hitem
    rw [Field.entry, Field.gathered, if_neg hsingular, Option.or_eq_some_iff] at hentry
    rcases hentry with hlast | ⟨_, hfallback⟩
    · obtain ⟨vs, hvs, hmem⟩ := List.mem_flatten.1 (List.mem_of_getLast? hlast)
      exact Or.inl ⟨vs, hvs, hmem⟩
    · rw [Option.ite_none_right_eq_some, Field.fallback, if_neg hsingular] at hfallback
      replace hfallback := hfallback.2
      cases htype : f.type with
      | message name =>
        rw [htype] at hfallback
        simp at hfallback
      | element type =>
        rw [htype] at hfallback
        dsimp only at hfallback
        split at hfallback
        · simp at hfallback
        · rename_i hpresence
          refine Or.inr ⟨type, rfl, ?_⟩
          rw [← Option.some.inj hfallback, hf.default hrepeated (Bool.eq_false_iff.2 hpresence) type htype]

private theorem isNull_of_entry {cs : Codecs} {f : Field} (hf : f.WellFormed cs) {fill : Bool}
    {hits : List (List Value)}
    (hnull : ∀ vs ∈ hits, ∀ u ∈ vs, u.isNull = false) {w : Value} (hentry : f.entry fill hits = some w) :
    w.isNull = false := by
  cases hrepeated : f.repeated with
  | true =>
    rw [eq_list_of_entry hrepeated hentry]
    rfl
  | false =>
    have hitem : w ∈ f.itemsOf w := by rw [Field.itemsOf, hrepeated]; simp
    rcases mem_itemsOf_entry hf.steady hentry hitem with ⟨vs, hvs, hmem⟩ | ⟨type, _, rfl⟩
    · exact hnull vs hvs w hmem
    · exact ElementType.isNull_of_decoded type.decoded_zero

/-- Where fields are kept apart, the entry of each is found under its keys, and under those of no other. -/
theorem field?_of_unmixed {cs : Codecs} {c : Codec} (hc : c.Unmixed) {rs : List Slice} {entries : Entries}
    (h : cs.Describes c rs entries) {f : Field} (hf : f ∈ c.fields)
    (hnull : ∀ w, f.entry cs.fillDefaults (cs.hits f rs) = some w → w.isNull = false) :
    (Value.mapping entries).field? f.keys = f.entry cs.fillDefaults (cs.hits f rs) := by
  refine Field.field?_of_held (hc.read_back f hf) (fun key hkey => h.field f hf key hkey) (fun key hkey hnot => ?_) hnull
  have hne : key ≠ unknownKey := fun heq => hc.unknown_keys f hf (heq ▸ hkey)
  rw [h.other key fun g hg hout => hnot (hc.keys f hf g hg key hkey hout ▸ hout), if_neg (fun hand => hne hand.1)]

/-- A decoded message has the entry of each field under its keys. -/
theorem field?_of_describes {cs : Codecs} {c : Codec} (hc : c.WellFormed cs) {w : List UInt8} {rs : List Slice}
    (htiles : Tiles w rs) {entries : Entries} (h : cs.Describes c rs entries) {f : Field} (hf : f ∈ c.fields) :
    (Value.mapping entries).field? f.keys = f.entry cs.fillDefaults (cs.hits f rs) := by
  refine field?_of_unmixed hc.unmixed h hf fun w hw => ?_
  exact isNull_of_entry (hc.fields f hf) (fun vs hvs u hu => isNull_of_yields (yields_of_mem_hits htiles hvs hu)) hw

/-- The records that a message has kept are written again as they were. -/
theorem unknownOfValue_of_describes {cs : Codecs} {c : Codec} (hc : c.Placed) {rs : List Slice}
    {entries : Entries} (h : cs.Describes c rs entries) : unknownOfValue (.mapping entries) = .ok (c.kept rs) := by
  rw [unknownOfValue, Value.field?_mapping_singleton, h.other unknownKey hc.unknown_outputs]
  by_cases hkept : c.kept rs = []
  · rw [if_neg (fun hand => hand.2 hkept), hkept]
    rfl
  · rw [if_pos ⟨rfl, hkept⟩]
    show Except.ok (Base64.decode (Base64.encodeText (c.kept rs)).toList) = _
    rw [ElementType.toList_encodeText, Base64.decode_encode]

/-! ### Encoded text -/

theorem encodeText_eq_ok {cs : Codecs} {c : Codec} {v : Value} {text : String} :
    cs.encodeText c v = .ok text ↔ ∃ bytes, cs.encode c v = .ok bytes ∧ text = Base64.encodeText bytes := by
  rw [encodeText, bind_eq_ok]
  constructor
  · rintro ⟨bytes, hbytes, htext⟩
    exact ⟨bytes, hbytes, (Except.ok.inj htext).symm⟩
  · rintro ⟨bytes, hbytes, rfl⟩
    exact ⟨bytes, hbytes, rfl⟩

theorem decodeValue_encodeText (cs : Codecs) (c : Codec) (bytes : List UInt8) :
    cs.decodeValue c (.text (Base64.encodeText bytes)) = cs.decode c bytes := by
  have hdata : (Value.text (Base64.encodeText bytes)).toEncoded = .ok bytes := by
    show Except.ok (Base64.decode (Base64.encodeText bytes).toList) = _
    rw [ElementType.toList_encodeText, Base64.decode_encode]
  rw [decodeValue, hdata, ok_bind]

end Codecs

/-! ### A key that is not found again -/

namespace Sample

def wordField (name : String) : FieldPlan :=
  { name, number := 1, kind := .scalar, scalar := some ScalarType.fixed32.name, default := .int 0 }

theorem wordField_wellFormed (plans : List MessagePlan) (name : String) : (wordField name).WellFormed plans := by
  refine ⟨by simp [wordField], by simp [wordField], by simp [wordField],
    ⟨_, .scalar rfl (Codecs.scalarOf_name _)⟩, fun _ _ type h => ?_⟩
  cases Codecs.holds_unique h (.scalar rfl (Codecs.scalarOf_name .fixed32))
  rfl

/-- A message whose only field has a name without letters: in camel case nothing is left of it. -/
def blank : MessagePlan where
  name := "Blank"
  fullName := "forum.Blank"
  symbol := "Blank"
  fields := [wordField "_"]

theorem blank_wellFormed : blank.WellFormed [blank] where
  fields := List.forall_mem_singleton.2 (wordField_wellFormed _ _)
  numbers := by decide
  stems := by decide
  keys := by decide
  unknown := by decide

def camelSettings : Settings := { decodeCase := .camel }

def blankCodec : Codec :=
  ⟨"forum.Blank", "Blank", blank.fields.map fun f => f.ready .camel (.element (.scalar .fixed32))⟩

theorem codecOf_blank : Codecs.codecOf camelSettings blank = .ok blankCodec := rfl

theorem ofPlans_blank : Codecs.ofPlans camelSettings [blank] = .ok ⟨[blankCodec], true⟩ := rfl

theorem decode_blank :
    Codecs.decode ⟨[blankCodec], true⟩ blankCodec [13, 5, 0, 0, 0] = .ok (.mapping [("", .int 5)]) :=
  Codecs.decode_of_turn (g := ⟨[("", .int 5)], []⟩) rfl

/-- The decoded value stands under a key that is never looked up. -/
theorem encode_decoded_blank : Codecs.encode ⟨[blankCodec], true⟩ blankCodec (.mapping [("", .int 5)]) = .ok [] := by
  rw [Codecs.encode_eq]
  rfl

end Sample

end MessageCodec
