import MessageCodec.Proofs.Encoding
import MessageCodec.Proofs.Stems

/-!
# Elements alone and together

The elements of a repeated field come one to a record, or some of them share one. However they are spread over
records, the field is decoded to all of them in their order: each record is taken by an arm of the field, whichever
form it has, and both arms read an element in the same way. A message that has been filled keeps the list.
-/

namespace MessageCodec

open Codec Wire

namespace Codec.ElementType

/-! ### The elements of a type -/

/-- A value in the range of a type whose values may share a record, and what it is decoded to. -/
def Admits (type : ElementType) (v u : Value) : Prop :=
  match type with
  | scalar .bool => ∃ b, v = .bool b ∧ u = .bool b
  | scalar .int32 | scalar .sint32 | scalar .sfixed32 => ∃ n, IsInt32 n ∧ v = .int n ∧ u = .int n
  | scalar .uint32 | scalar .fixed32 => ∃ n, IsUInt32 n ∧ v = .int n ∧ u = .int n
  | scalar .int64 | scalar .sint64 | scalar .sfixed64 =>
    ∃ n, IsInt64 n ∧ (v = .int n ∨ v = textOf (Numeral.ofInt n)) ∧ u = textOf (Numeral.ofInt n)
  | scalar .uint64 | scalar .fixed64 =>
    ∃ n : Nat, n < 0x10000000000000000 ∧ (v = .int n ∨ v = textOf (Numeral.ofNat n)) ∧ u = textOf (Numeral.ofNat n)
  | scalar .float => ∃ x : Binary64, v = .float x ∧ u = .float (.ofSingle x.toSingle)
  | scalar .double => ∃ x, v = .float x ∧ u = .float x
  | scalar .string | scalar .bytes => False
  | enum byName byNumber zeroName =>
    ∃ n, IsInt32 n ∧ v.toEnumNumber byName = .ok n ∧ u = Value.ofEnumNumber byNumber zeroName n

/-- A value is written as a payload from which another is read. -/
def Writes (type : ElementType) (v u : Value) : Prop := ∃ p, type.payload v = .ok p ∧ type.Reads p u

theorem Settled.writes {type : ElementType} (hform : type.wireType ≠ .delimited) {v : Value} {p : Payload}
    (h : type.Settled v p) : type.Writes v v :=
  ⟨p, h.payload_eq, h.reads fun _ hdelimited _ => absurd hdelimited hform⟩

private theorem Writes.of_payload_eq {type : ElementType} {v v' u : Value} (h : type.Writes v u)
    (heq : type.payload v' = type.payload v) : type.Writes v' u := by
  obtain ⟨p, hp, hread⟩ := h
  exact ⟨p, heq.trans hp, hread⟩

/-- A 64-bit integer is written in the same way as its numeral. -/
theorem payload_int {type : ScalarType}
    (hwide : type ∈ [ScalarType.int64, .uint64, .sint64, .fixed64, .sfixed64]) {n : Int}
    (hn : n.natAbs < 0x10000000000000000) :
    (scalar type).payload (.int n) = (scalar type).payload (textOf (Numeral.ofInt n)) := by
  have hsigned : (Value.int n).toSignedNumeral = (textOf (Numeral.ofInt n)).toSignedNumeral := by
    rw [Value.toSignedNumeral_int hn, textOf, Value.toSignedNumeral_text]
  have hunsigned : (Value.int n).toUnsignedNumeral = (textOf (Numeral.ofInt n)).toUnsignedNumeral := by
    rw [Value.toUnsignedNumeral, hsigned, Value.toUnsignedNumeral]
  have hzigzag : (Value.int n).toZigzag64 = (textOf (Numeral.ofInt n)).toZigzag64 := by
    rw [Value.toZigzag64, hsigned, Value.toZigzag64]
  simp only [List.mem_cons, List.not_mem_nil, or_false] at hwide
  rcases hwide with rfl | rfl | rfl | rfl | rfl
  · exact congrArg (· >>= numeral) hunsigned
  · exact congrArg (· >>= numeral) hunsigned
  · exact congrArg (· >>= numeral) hzigzag
  · exact congrArg (· >>= word) hunsigned
  · exact congrArg (· >>= word) hunsigned

theorem writes_wide {type : ScalarType}
    (hwide : type ∈ [ScalarType.int64, .uint64, .sint64, .fixed64, .sfixed64]) {n : Int}
    (hn : n.natAbs < 0x10000000000000000) {p : Payload} (h : (scalar type).Settled (textOf (Numeral.ofInt n)) p)
    {v : Value} (hv : v = .int n ∨ v = textOf (Numeral.ofInt n)) :
    (scalar type).Writes v (textOf (Numeral.ofInt n)) := by
  have hform : (scalar type).wireType ≠ .delimited := by
    revert hwide
    cases type <;> decide
  rcases hv with rfl | rfl
  · exact (h.writes hform).of_payload_eq (payload_int hwide hn)
  · exact h.writes hform

private theorem writes_float (x : Binary64) : (scalar .float).Writes (.float x) (.float (.ofSingle x.toSingle)) := by
  refine ⟨⟨single x, x.isPositiveZero⟩, rfl, fun rest => ?_⟩
  show (((take 4).map fun bs => Binary64.ofSingle (Word.ofBytes bs)).map Value.float) (Word.toBytes 4 x.toSingle ++ rest) = _
  rw [map_map, map_take, Word.ofBytes_toBytes, Nat.mod_eq_of_lt (by norm_num; exact x.toSingle_lt)]

private theorem writes_enum {byName : Table Int} {byNumber : Table String} {zeroName : Option String} {v : Value}
    {n : Int} (hn : IsInt32 n) (hnumber : v.toEnumNumber byName = .ok n) :
    (enum byName byNumber zeroName).Writes v (Value.ofEnumNumber byNumber zeroName n) := by
  obtain ⟨hlow, hhigh⟩ := id hn
  refine ⟨⟨varintOfNat (Word.unsigned64 n), n == 0⟩, ?_, fun rest => ?_⟩
  · rw [payload, hnumber, ok_bind]
    exact number_eq (by omega)
  · rw [reader, map_readVarint64 _ (Word.unsigned64_lt n), Word.signed32OfNumeral_ofNat,
      Word.signed32_unsigned64 hlow hhigh]

theorem Admits.writes {type : ElementType} {v u : Value} (h : type.Admits v u) : type.Writes v u := by
  cases type with
  | enum byName byNumber zeroName =>
    obtain ⟨n, hn, hnumber, rfl⟩ := h
    exact writes_enum hn hnumber
  | scalar type =>
    have hword {n : Int} (hn : IsInt64 n) : n.natAbs < 0x10000000000000000 := by
      have := hn.1
      have := hn.2
      omega
    cases type
    case string | bytes => exact h.elim
    case bool => obtain ⟨b, rfl, rfl⟩ := h; exact (settled_bool b).writes (by decide)
    case int32 => obtain ⟨n, hn, rfl, rfl⟩ := h; exact (settled_int32 hn).writes (by decide)
    case sint32 => obtain ⟨n, hn, rfl, rfl⟩ := h; exact (settled_sint32 hn).writes (by decide)
    case sfixed32 => obtain ⟨n, hn, rfl, rfl⟩ := h; exact (settled_sfixed32 hn).writes (by decide)
    case uint32 => obtain ⟨n, hn, rfl, rfl⟩ := h; exact (settled_uint32 hn).writes (by decide)
    case fixed32 => obtain ⟨n, hn, rfl, rfl⟩ := h; exact (settled_fixed32 hn).writes (by decide)
    case double => obtain ⟨x, rfl, rfl⟩ := h; exact (settled_double x).writes (by decide)
    case float => obtain ⟨x, rfl, rfl⟩ := h; exact writes_float x
    case int64 => obtain ⟨n, hn, hv, rfl⟩ := h; exact writes_wide (by decide) (hword hn) (settled_int64 hn) hv
    case sint64 => obtain ⟨n, hn, hv, rfl⟩ := h; exact writes_wide (by decide) (hword hn) (settled_sint64 hn) hv
    case sfixed64 => obtain ⟨n, hn, hv, rfl⟩ := h; exact writes_wide (by decide) (hword hn) (settled_sfixed64 hn) hv
    case uint64 =>
      obtain ⟨n, hn, hv, rfl⟩ := h
      have hsettled := settled_uint64 hn
      rw [← Numeral.ofInt_natCast] at hv hsettled ⊢
      exact writes_wide (by decide) (by omega) hsettled hv
    case fixed64 =>
      obtain ⟨n, hn, hv, rfl⟩ := h
      have hsettled := settled_fixed64 hn
      rw [← Numeral.ofInt_natCast] at hv hsettled ⊢
      exact writes_wide (by decide) (by omega) hsettled hv

theorem exists_payloads {type : ElementType} {vs us : List Value} (h : List.Forall₂ type.Admits vs us) :
    ∃ ps, List.Forall₂ (fun v p => type.payload v = .ok p) vs ps ∧ List.Forall₂ type.Reads ps us := by
  induction h with
  | nil => exact ⟨[], .nil, .nil⟩
  | cons hv _ ih =>
    obtain ⟨p, hp, hread⟩ := hv.writes
    obtain ⟨ps, hps, hreads⟩ := ih
    exact ⟨p :: ps, .cons hp hps, .cons hread hreads⟩

end Codec.ElementType

/-! ### Spreading elements over records -/

namespace Codec

/-- A record of a repeated field: one element, or any number of elements that share it. -/
inductive Portion where
  | alone (p : Payload)
  | together (ps : List Payload)

namespace Portion

def payloads : Portion → List Payload
  | alone p => [p]
  | together ps => ps

def bytes (number : Int) (type : ElementType) : Portion → List UInt8
  | alone p => record (FieldPlan.tagOf number type.wireType) p.bytes
  | together ps => record (FieldPlan.tagOf number .delimited) (delimited (ps.flatMap Payload.bytes))

def Short (portion : Portion) : Prop :=
  ∀ ps, portion = together ps → (ps.flatMap Payload.bytes).length < 0x100000000

end Portion

end Codec

namespace Codecs

variable {cs : Codecs} {c : Codec} {f : Field} {type : ElementType}

private theorem exists_slice_portion (hpos : 1 ≤ f.number) (hlt : f.number < 0x20000000) (hrepeated : f.repeated = true)
    (htype : f.type = .element type) (hpackable : type.isPackable = true) {portion : Portion} {us : List Value}
    (h : List.Forall₂ type.Reads portion.payloads us) (hshort : portion.Short) :
    ∃ r : Slice, r.bytes = portion.bytes f.number type ∧ cs.hits f [r] = [us] := by
  cases portion with
  | alone p =>
    obtain ⟨u, rest, hread, hrest, rfl⟩ := List.forall₂_cons_left_iff.1 h
    obtain rfl := List.forall₂_nil_left_iff.1 hrest
    obtain ⟨r, hr, hhit⟩ := exists_slice_element hpos hlt htype hread
    refine ⟨r, ?_, hhit⟩
    rw [hr, Field.tag, htype]
    rfl
  | together ps =>
    obtain ⟨r, hr, hhit⟩ := exists_slice_packed hpos hlt hrepeated htype hpackable h (hshort ps rfl)
    exact ⟨r, hr, hhit⟩

/-- Portions are records of their field, and hold their elements in order. -/
theorem exists_slices_portions (hpos : 1 ≤ f.number) (hlt : f.number < 0x20000000) (hrepeated : f.repeated = true)
    (htype : f.type = .element type) (hpackable : type.isPackable = true) {portions : List Portion}
    (hshort : ∀ portion ∈ portions, portion.Short) {us : List Value}
    (h : List.Forall₂ type.Reads (portions.flatMap Portion.payloads) us) :
    ∃ rs : List Slice, rs.flatMap Slice.bytes = portions.flatMap (Portion.bytes f.number type) ∧
      (∀ r ∈ rs, (f.arm? r.number r.form.code).isSome = true) ∧
      (cs.hits f rs).length = portions.length ∧ (cs.hits f rs).flatten = us := by
  induction portions generalizing us with
  | nil =>
    obtain rfl := List.forall₂_nil_left_iff.1 h
    exact ⟨[], rfl, List.forall_mem_nil _, rfl, rfl⟩
  | cons portion portions ih =>
    rw [List.forall_mem_cons] at hshort
    rw [List.flatMap_cons] at h
    obtain ⟨vs, ws, hfirst, hrest, rfl⟩ : ∃ vs ws, List.Forall₂ type.Reads portion.payloads vs ∧
        List.Forall₂ type.Reads (portions.flatMap Portion.payloads) ws ∧ us = vs ++ ws :=
      ⟨us.take portion.payloads.length, us.drop portion.payloads.length,
        (List.forall₂_take_append _ _ _ h.flip).flip, (List.forall₂_drop_append _ _ _ h.flip).flip,
        (List.take_append_drop _ us).symm⟩
    obtain ⟨r, hr, hhit⟩ : ∃ r : Slice, r.bytes = portion.bytes f.number type ∧ cs.hits f [r] = [vs] :=
      exists_slice_portion hpos hlt hrepeated htype hpackable hfirst hshort.1
    obtain ⟨rs, hbytes, hclaimed, hlength, hflatten⟩ := ih hshort.2 hrest
    refine ⟨r :: rs, ?_, List.forall_mem_cons.2 ⟨claimed_of_hits hhit, hclaimed⟩, ?_, ?_⟩
    · rw [List.flatMap_cons, List.flatMap_cons, hr, hbytes]
    · rw [← List.singleton_append, hits_append, hhit, List.length_append, hlength, List.length_cons, Nat.add_comm]
      rfl
    · rw [← List.singleton_append, hits_append, hhit, List.flatten_append, hflatten, List.flatten_singleton]

/-! ### Decoding records of one field -/

/-- Records that one field takes are gathered under its keys, whatever else the message has. -/
theorem foldlM_own (hnumbers : (c.fields.map Field.number).Nodup) (hf : f ∈ c.fields) (hnodup : f.outputs.Nodup)
    (htype : f.type = .element type) {rs : List Slice}
    (hclaimed : ∀ r ∈ rs, (f.arm? r.number r.form.code).isSome = true) {g : Gathered} {before : List (List Value)}
    (h : ∀ key ∈ f.outputs, g.entries.get? key = f.gathered before) :
    ∃ g', rs.foldlM (cs.consume c) g = .ok g' ∧ g'.unknown = g.unknown ∧
      ∀ key ∈ f.outputs, g'.entries.get? key = f.gathered (before ++ cs.hits f rs) := by
  induction rs generalizing g before with
  | nil => exact ⟨g, rfl, rfl, fun key hkey => by rw [hits, List.filterMap_nil, List.append_nil, h key hkey]⟩
  | cons r rs ih =>
    rw [List.forall_mem_cons] at hclaimed
    obtain ⟨arm, harm⟩ := Option.isSome_iff_exists.1 hclaimed.1
    -- only the arm of a message can fail
    obtain ⟨vs, hvs⟩ : ∃ vs, cs.valuesOf arm r.payload = .ok vs := by
      cases arm with
      | packed type => exact ⟨_, rfl⟩
      | single type => exact ⟨_, rfl⟩
      | message child =>
        have hmessage := Field.type_of_arm?_message harm
        rw [htype] at hmessage
        cases hmessage
    obtain ⟨mid, htake, hmid⟩ := take_gathered hnodup h vs
    have hstep : cs.consume c g r = .ok mid := by
      rw [consume, arm?_of_mem hnumbers hf harm]
      dsimp only
      rw [hvs, ok_bind, htake]
    obtain ⟨g', hfold, hunknown, hg'⟩ := ih hclaimed.2 hmid
    refine ⟨g', ?_, hunknown.trans (Gathered.take_unknown htake), fun key hkey => ?_⟩
    · rw [List.foldlM_cons, hstep, ok_bind, hfold]
    · rw [hg' key hkey, ← List.singleton_append (l := rs), hits_append, hits_singleton_of_arm? harm, values_of_ok hvs,
        List.append_assoc]

/-- Filling in a field leaves alone what another holds, unless it writes to a key of that field without having
looked at one. -/
theorem get?_fillField_of_held {g : Field} {keys : List String}
    (hg : (∀ key ∈ keys, key ∉ g.outputs) ∨ ∃ first rest, g.outputs = first :: rest ∧ first ∈ keys)
    {entries : Entries} {v : Value} (h : ∀ key ∈ keys, entries.get? key = some v) :
    ∀ key ∈ keys, (fillField entries g).get? key = some v := by
  intro key hkey
  rw [fillField_eq]
  cases g.fallback with
  | none => exact h key hkey
  | some default =>
    rw [Option.map_some, Option.getD_some]
    rcases hg with hdisjoint | ⟨first, rest, houtputs, hfirst⟩
    · rw [Entries.get?_fillDefault_of_not_mem (hdisjoint key hkey), h key hkey]
    · rw [houtputs, Entries.get?_fillDefault, h first hfirst, if_neg (fun hnone => nomatch hnone.2), h key hkey]

private theorem get?_foldl_fillField_of_held {fields : List Field} {keys : List String}
    (hfields : ∀ g ∈ fields, (∀ key ∈ keys, key ∉ g.outputs) ∨ ∃ first rest, g.outputs = first :: rest ∧ first ∈ keys)
    {entries : Entries} {v : Value} (h : ∀ key ∈ keys, entries.get? key = some v) :
    ∀ key ∈ keys, (fields.foldl fillField entries).get? key = some v := by
  induction fields generalizing entries with
  | nil => exact h
  | cons g fields ih =>
    rw [List.forall_mem_cons] at hfields
    rw [List.foldl_cons]
    exact ih hfields.2 (get?_fillField_of_held hfields.1 h)

/-- Elements of a repeated field, spread over records in any way. -/
theorem decode_of_portions (hnumbers : (c.fields.map Field.number).Nodup) (hf : f ∈ c.fields) (hpos : 1 ≤ f.number)
    (hlt : f.number < 0x20000000) (hrepeated : f.repeated = true) (hnodup : f.outputs.Nodup)
    (htype : f.type = .element type) (hpackable : type.isPackable = true)
    (hfill : cs.fillDefaults = true → ∀ g ∈ c.fields, (∀ key ∈ f.outputs, key ∉ g.outputs) ∨
      ∃ first rest, g.outputs = first :: rest ∧ first ∈ f.outputs)
    {portions : List Portion} (hne : portions ≠ []) (hshort : ∀ portion ∈ portions, portion.Short) {us : List Value}
    (h : List.Forall₂ type.Reads (portions.flatMap Portion.payloads) us) :
    ∃ entries : Entries, cs.decode c (portions.flatMap (Portion.bytes f.number type)) = .ok (.mapping entries) ∧
      ∀ key ∈ f.outputs, entries.get? key = some (.list us) := by
  obtain ⟨rs, hbytes, hclaimed, hlength, hflatten⟩ : ∃ rs : List Slice,
      rs.flatMap Slice.bytes = portions.flatMap (Portion.bytes f.number type) ∧
      (∀ r ∈ rs, (f.arm? r.number r.form.code).isSome = true) ∧
      (cs.hits f rs).length = portions.length ∧ (cs.hits f rs).flatten = us :=
    exists_slices_portions hpos hlt hrepeated htype hpackable hshort h
  obtain ⟨g, hfold, hunknown, hg⟩ : ∃ g, rs.foldlM (cs.consume c) {} = .ok g ∧ g.unknown = [] ∧
      ∀ key ∈ f.outputs, g.entries.get? key = f.gathered ([] ++ cs.hits f rs) :=
    foldlM_own hnumbers hf hnodup htype hclaimed fun key _ => by rw [Field.gathered, if_pos hrepeated]; rfl
  have hheld : ∀ key ∈ f.outputs, g.entries.get? key = some (.list us) := by
    intro key hkey
    -- a record without elements counts too: it leaves an empty list
    have hhits : (cs.hits f rs).isEmpty = false := by
      rw [List.isEmpty_eq_false_iff, ← List.length_pos_iff, hlength, List.length_pos_iff]
      exact hne
    rw [hg key hkey, List.nil_append, Field.gathered, if_pos hrepeated, hhits, hflatten]
    rfl
  refine ⟨_, (decode_eq_ok (hbytes ▸ tiles_flatMap rs)).2 ⟨g, hfold, rfl⟩, fun key hkey => ?_⟩
  rw [Entries.get?_attachUnknown, hunknown, if_neg (fun hkept => hkept.2 rfl)]
  split
  · rename_i hfilled
    exact get?_foldl_fillField_of_held (hfill hfilled) hheld key hkey
  · exact hheld key hkey

/-- With one key for each field, a key that is shared is the one that is looked at. -/
theorem fills_apart {choice : DecodeCase} {m : MessagePlan} {e f : FieldPlan} (he : e ∈ m.fields)
    (hkeys : choice = .both → ∀ g ∈ m.fields, g ≠ f → ∀ key ∈ f.outputKeys .both, key ∉ g.outputKeys .both) :
    (∀ key ∈ f.outputKeys choice, key ∉ e.outputKeys choice) ∨
      ∃ first rest, e.outputKeys choice = first :: rest ∧ first ∈ f.outputKeys choice := by
  have hsingle (a b : String) : (∀ key ∈ [a], key ∉ [b]) ∨ ∃ first rest, [b] = first :: rest ∧ first ∈ [a] := by
    by_cases h : a = b
    · exact .inr ⟨b, [], rfl, List.mem_singleton.2 h.symm⟩
    · exact .inl (by simpa using h)
  cases choice with
  | snake => exact hsingle f.name e.name
  | camel => exact hsingle f.jsonKey e.jsonKey
  | both =>
    by_cases h : e = f
    · subst h
      obtain ⟨first, rest, houtputs⟩ := List.exists_cons_of_ne_nil (e.outputKeys_ne_nil .both)
      exact .inr ⟨first, rest, houtputs, houtputs ▸ List.mem_cons_self⟩
    · exact .inl (hkeys rfl e he h)

/-- The elements of a repeated field are decoded to one list in their order, whether they come alone or together,
and however they are spread over records. -/
theorem decode_portions {settings : Settings} {plans : List MessagePlan} {cs : Codecs}
    (hcs : ofPlans settings plans = .ok cs) {m : MessagePlan} (hnumbers : (m.fields.map FieldPlan.number).Nodup)
    (hstems : (m.fields.map fun f => m.stemOf f.number).Nodup) {c : Codec} (hc : codecOf settings m = .ok c)
    {f : FieldPlan} (hf : f ∈ m.fields) (hpos : 1 ≤ f.number) (hlt : f.number < 0x20000000)
    (hrepeated : f.repeated = true) {type : ElementType} (htype : fieldType [f] f = .ok (.element type))
    (hpackable : type.isPackable = true)
    (hkeys : settings.fillDefaults = true → settings.decodeCase = .both →
      ∀ g ∈ m.fields, g ≠ f → ∀ key ∈ f.outputKeys .both, key ∉ g.outputKeys .both)
    {vs us : List Value} (hvalues : List.Forall₂ type.Admits vs us) :
    ∃ ps, List.Forall₂ (fun v p => type.payload v = .ok p) vs ps ∧
      ∀ portions : List Portion, portions ≠ [] → portions.flatMap Portion.payloads = ps →
        (∀ portion ∈ portions, portion.Short) → ∃ entries : Entries,
          cs.decodeValue c (.bytes (portions.flatMap (Portion.bytes f.number type))) = .ok (.mapping entries) ∧
          ∀ key ∈ f.outputKeys settings.decodeCase, entries.get? key = some (.list us) := by
  have hready := forall₂_own hstems hc
  have hfields := numbers_of_ready hnumbers (forall₂_ready hstems hc)
  obtain ⟨ps, hps, hreads⟩ := ElementType.exists_payloads hvalues
  obtain ⟨g, hg, type', htype', rfl⟩ := exists_of_forall₂ hready.flip hf
  obtain rfl : type' = .element type := Except.ok.inj (htype'.symm.trans htype)
  refine ⟨ps, hps, fun portions hne hpayloads hshort => ?_⟩
  apply decode_of_portions hfields hg hpos hlt hrepeated (f.outputKeys_nodup _) rfl hpackable _ hne hshort
    (hpayloads ▸ hreads)
  intro hfill e he
  obtain ⟨e', he', _, _, rfl⟩ := exists_of_forall₂ hready he
  rw [(ofPlans_eq_ok.1 hcs).1] at hfill
  exact fills_apart he' (hkeys hfill)

end Codecs

namespace Sample

/-- The list of the clash, in a message where nothing clashes. -/
def spread : MessagePlan where
  name := "M"
  fullName := "M"
  symbol := "M"
  fields := [stutterList, optionalWord "b" 1 none]

/-- A shared record that is empty, an element alone, and one in a shared record. -/
theorem decode_portions_spread : ∃ cs c entries, Codecs.ofPlans { decodeCase := .both } [spread] = .ok cs ∧
    Codecs.codecOf { decodeCase := .both } spread = .ok c ∧
    cs.decodeValue c (.bytes ([.together [], .alone ⟨[5, 0, 0, 0], false⟩, .together [⟨[7, 0, 0, 0], false⟩]].flatMap
      (Portion.bytes 5 (.scalar .fixed32)))) = .ok (.mapping entries) ∧
    ∀ key ∈ ["a_2", "a2"], Table.get? entries key = some (.list [.int 5, .int 7]) := by
  have hcs : Codecs.ofPlans { decodeCase := .both } [spread] = .ok ⟨[wordsCodec .both spread], true⟩ := rfl
  have hc : Codecs.codecOf { decodeCase := .both } spread = .ok (wordsCodec .both spread) := rfl
  have hfive : IsUInt32 5 := ⟨by decide, by decide⟩
  have hseven : IsUInt32 7 := ⟨by decide, by decide⟩
  have hkeys : ∀ g ∈ spread.fields, g ≠ stutterList → ∀ key ∈ stutterList.outputKeys .both, key ∉ g.outputKeys .both := by
    intro g hg hne
    simp only [spread, List.mem_cons, List.not_mem_nil, or_false] at hg
    rcases hg with rfl | rfl
    · exact absurd rfl hne
    · decide
  obtain ⟨ps, hps, hdecode⟩ := Codecs.decode_portions hcs (by decide) (by decide) hc (f := stutterList)
    List.mem_cons_self (by decide) (by decide) rfl rfl rfl (fun _ _ => hkeys)
    (.cons ⟨5, hfive, rfl, rfl⟩ (.cons ⟨7, hseven, rfl, rfl⟩ .nil) :
      List.Forall₂ (ElementType.scalar .fixed32).Admits [.int 5, .int 7] [.int 5, .int 7])
  obtain ⟨p, rest, hp, hrest, rfl⟩ := List.forall₂_cons_left_iff.1 hps
  obtain ⟨q, last, hq, hlast, rfl⟩ := List.forall₂_cons_left_iff.1 hrest
  obtain rfl := List.forall₂_nil_left_iff.1 hlast
  obtain rfl : p = ⟨[5, 0, 0, 0], false⟩ := Except.ok.inj (hp.symm.trans (payload_word hfive rfl))
  obtain rfl : q = ⟨[7, 0, 0, 0], false⟩ := Except.ok.inj (hq.symm.trans (payload_word hseven rfl))
  obtain ⟨entries, hentries, hget⟩ := hdecode
    [.together [], .alone ⟨[5, 0, 0, 0], false⟩, .together [⟨[7, 0, 0, 0], false⟩]] (List.cons_ne_nil _ _) rfl (by
      simp [Portion.Short])
  exact ⟨_, _, entries, hcs, hc, hentries, hget⟩

/-- The message of the clash made ready to run: the first field has the keys of the last. -/
def stutterCodec : Codec :=
  ⟨"M", "M", [
    { stutterList.ready .snake (.element (.scalar .fixed32)) with
      keys := (optionalWord "A" 2 none).lookupKeys
      outputs := ["A"] },
    (optionalWord "a" 1 none).ready .snake (.element (.scalar .fixed32)),
    (optionalWord "A" 2 none).ready .snake (.element (.scalar .fixed32))]⟩

private theorem codecOf_stutter : Codecs.codecOf {} stutter = .ok stutterCodec := by
  obtain ⟨hfirst, hsecond, hthird⟩ := stemOf_stutter
  have hfields : stutter.fields = [stutterList, optionalWord "a" 1 none, optionalWord "A" 2 none] := rfl
  have hshared : stutter.withStem "A_2" = [optionalWord "A" 2 none, stutterList] := by
    rw [MessagePlan.withStem, hfields, List.filter_cons_of_pos (by rw [stutterList, hfirst]; rfl),
      List.filter_cons_of_neg (by rw [optionalWord, hsecond]; decide),
      List.filter_cons_of_pos (by rw [optionalWord, hthird]; rfl)]
    rfl
  have hown : stutter.withStem "A" = [optionalWord "a" 1 none] := by
    rw [MessagePlan.withStem, hfields, List.filter_cons_of_neg (by rw [stutterList, hfirst]; decide),
      List.filter_cons_of_pos (by rw [optionalWord, hsecond]; rfl),
      List.filter_cons_of_neg (by rw [optionalWord, hthird]; decide)]
    rfl
  have hready : List.Forall₂ (fun f g => Codecs.fieldOf {} stutter f = .ok g) stutter.fields stutterCodec.fields := by
    refine .cons ?_ (.cons ?_ (.cons ?_ .nil))
    · rw [Codecs.fieldOf, show stutterList.number = 5 from rfl, hfirst, hshared]
      rfl
    · rw [Codecs.fieldOf, show (optionalWord "a" 1 none).number = 1 from rfl, hsecond, hown]
      rfl
    · rw [Codecs.fieldOf, show (optionalWord "A" 2 none).number = 2 from rfl, hthird, hshared]
      rfl
  rw [Codecs.codecOf, mapM_eq_ok.2 hready, ok_bind]
  rfl

/-- A record of the first field is decoded to the key of the last. -/
theorem stutter_list_astray : stutterList ∈ stutter.fields ∧ stutterList.outputKeys .snake = ["a_2"] ∧
    stutterList.repeated = true ∧ Codecs.fieldType [stutterList] stutterList = .ok (.element (.scalar .fixed32)) ∧
    (ElementType.scalar .fixed32).payload (.int 5) = .ok ⟨[5, 0, 0, 0], false⟩ ∧
    ∃ cs c, Codecs.ofPlans {} [stutter] = .ok cs ∧ Codecs.codecOf {} stutter = .ok c ∧
      cs.decodeValue c (.bytes (Portion.bytes 5 (.scalar .fixed32) (.alone ⟨[5, 0, 0, 0], false⟩))) =
        .ok (.mapping [("A", .list [.int 5])]) := by
  have hcs : Codecs.ofPlans {} [stutter] = .ok ⟨[stutterCodec], true⟩ :=
    Codecs.ofPlans_eq_ok.2 ⟨rfl, .cons codecOf_stutter .nil⟩
  have hrecord : Portion.bytes 5 (.scalar .fixed32) (.alone ⟨[5, 0, 0, 0], false⟩) = [45, 5, 0, 0, 0] :=
    record_small (by decide : 45 < 128) _
  refine ⟨List.mem_cons_self, rfl, rfl, rfl, payload_word ⟨by decide, by decide⟩ rfl, _, _, hcs, codecOf_stutter, ?_⟩
  rw [hrecord]
  exact Codecs.decode_of_turn (g := ⟨[("A", .list [.int 5])], []⟩) rfl

end Sample

end MessageCodec
