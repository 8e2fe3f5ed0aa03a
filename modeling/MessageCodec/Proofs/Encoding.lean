import MessageCodec.Codec.Encode
import MessageCodec.Proofs.Decoding

/-!
# What a message is encoded to

The bytes of a message are records, field by field, followed by those it has kept. The values of a field
arrive in the records of that field: as they are read back from their own payloads, and for messages as
their own bytes are decoded.
-/

namespace MessageCodec

open Codec Wire

/-! ### Encoding field by field -/

theorem Codec.Field.sizeOf_le_of_mem_itemsOf (f : Field) {w item : Value} (h : item ∈ f.itemsOf w) :
    sizeOf item ≤ sizeOf w := by
  rw [Field.itemsOf] at h
  split at h
  · exact Value.sizeOf_le_of_mem_items h
  · rw [List.mem_singleton] at h
    rw [h]

namespace Codecs

def encodeItem (cs : Codecs) (f : Field) (inner : Codec) (item : Value) : Except Error (List UInt8) :=
  if item.isNull then .ok []
  else do
    let bytes ← cs.encode inner item
    return record f.tag (delimited bytes)

def encodeValue (cs : Codecs) (f : Field) (w : Value) : Except Error (List UInt8) :=
  match f.type with
  | .element type => encodeElements f type w
  | .message child => do
    let inner ← cs.child child
    let parts ← (f.itemsOf w).mapM (cs.encodeItem f inner)
    return parts.flatten

def encodeHeld (cs : Codecs) (f : Field) : Option Value → Except Error (List UInt8)
  | none => .ok []
  | some w => cs.encodeValue f w

def encodeField (cs : Codecs) (v : Value) (f : Field) : Except Error (List UInt8) :=
  cs.encodeHeld f (v.field? f.keys)

theorem isNull_of_field? {keys : List String} {v w : Value} (h : v.field? keys = some w) : w.isNull = false := by
  unfold Value.field? at h
  obtain ⟨key, _, hk⟩ := List.exists_of_findSome?_eq_some h
  split at hk
  · split at hk
    · simp at hk
    · rename_i hnull
      rw [← Option.some.inj hk]
      exact Bool.eq_false_iff.2 hnull
  · simp at hk

private theorem field?_null (keys : List String) : Value.null.field? keys = none := by
  rw [Value.field?, List.findSome?_eq_none_iff]
  exact fun _ _ => rfl

/-- The bytes of a message are those of its fields and those it has kept. -/
theorem encode_eq (cs : Codecs) (c : Codec) (v : Value) :
    cs.encode c v = do
      let records ← c.fields.mapM (cs.encodeField v)
      let kept ← unknownOfValue v
      return records.flatten ++ kept := by
  by_cases hnull : v.isNull = true
  · -- a null has no fields, and is written as no bytes
    obtain rfl : v = .null := by cases v <;> first | rfl | simp [Value.isNull] at hnull
    have hfields : c.fields.mapM (cs.encodeField .null) = .ok (c.fields.map fun _ => []) := by
      rw [mapM_eq_ok, List.forall₂_map_right_iff, List.forall₂_same]
      intro f _
      rw [encodeField, field?_null]
      rfl
    have hflatten : (c.fields.map fun _ => ([] : List UInt8)).flatten = [] := by simp
    rw [encode, hfields, ok_bind, unknownOfValue, field?_null, ok_bind, hflatten]
    rfl
  rw [encode, if_neg hnull]
  congr 2
  funext f
  split
  · rename_i hfield
    simp only [encodeField, hfield, encodeHeld]
  · rename_i w hfield
    simp only [encodeField, hfield, encodeHeld, encodeValue]
    cases f.type with
    | element type => rfl
    | message child =>
      dsimp only
      congr 1
      funext inner
      rw [Field.itemsOf]
      split
      · congr 1
        exact (List.mapM_subtype fun item _ => rfl).trans (by rw [List.unattach_attach])
      · rw [List.mapM_cons, List.mapM_nil, encodeItem, if_neg (by rw [isNull_of_field? hfield]; simp)]
        simp only [bind_assoc, pure_bind, List.flatten_cons, List.flatten_nil, List.append_nil]

/-- The bytes of a message end well just where those of its fields do. -/
theorem encode_eq_ok {cs : Codecs} {c : Codec} {v : Value} {bytes : List UInt8} :
    cs.encode c v = .ok bytes ↔ ∃ records kept,
      List.Forall₂ (fun f bs => cs.encodeField v f = .ok bs) c.fields records ∧
      unknownOfValue v = .ok kept ∧ bytes = records.flatten ++ kept := by
  rw [encode_eq, bind_eq_ok]
  constructor
  · rintro ⟨records, hrecords, hrest⟩
    obtain ⟨kept, hkept, heq⟩ := bind_eq_ok.1 hrest
    exact ⟨records, kept, mapM_eq_ok.1 hrecords, hkept, (Except.ok.inj heq).symm⟩
  · rintro ⟨records, kept, hrecords, hkept, rfl⟩
    exact ⟨records, mapM_eq_ok.2 hrecords, bind_eq_ok.2 ⟨kept, hkept, rfl⟩⟩

end Codecs

/-! ### Elements -/

namespace Codec

/-- The records of some payloads. A zero is left out where presence is not kept. -/
def Field.elementRecords (f : Field) (ps : List Payload) : List UInt8 :=
  if f.repeated then
    if f.packed then
      if (ps.flatMap Payload.bytes).isEmpty then []
      else record f.packedTag (delimited (ps.flatMap Payload.bytes))
    else ps.flatMap fun p => record f.tag p.bytes
  else (ps.filter fun p => !p.isZero || f.presence).flatMap fun p => record f.tag p.bytes

theorem encodeElements_eq_ok {f : Field} {type : ElementType} {w : Value} {bytes : List UInt8} :
    encodeElements f type w = .ok bytes ↔
      ∃ ps, List.Forall₂ (fun item p => type.payload item = .ok p) (f.itemsOf w) ps ∧ bytes = f.elementRecords ps := by
  rw [encodeElements, Field.itemsOf]
  by_cases hrepeated : f.repeated = true
  · rw [if_pos hrepeated, if_pos hrepeated, bind_eq_ok]
    simp only [mapM_eq_ok, Field.elementRecords, if_pos hrepeated]
    refine exists_congr fun ps => and_congr_right fun _ => ?_
    split
    · exact ⟨fun h => (Except.ok.inj h).symm, fun h => h ▸ rfl⟩
    · exact ⟨fun h => (Except.ok.inj h).symm, fun h => h ▸ rfl⟩
  · rw [if_neg hrepeated, if_neg hrepeated, bind_eq_ok]
    simp only [List.forall₂_cons_left_iff, List.forall₂_nil_left_iff, Field.elementRecords, if_neg hrepeated]
    constructor
    · rintro ⟨p, hp, heq⟩
      refine ⟨[p], ⟨p, [], hp, rfl, rfl⟩, ?_⟩
      rw [← Except.ok.inj heq]
      cases hzero : p.isZero <;> cases f.presence <;> simp [hzero]
    · rintro ⟨ps, ⟨p, _, hp, rfl, rfl⟩, rfl⟩
      refine ⟨p, hp, ?_⟩
      cases hzero : p.isZero <;> cases f.presence <;> simp [hzero] <;> rfl

def ElementType.Reads (type : ElementType) (p : Payload) (u : Value) : Prop :=
  ∀ rest, type.reader (p.bytes ++ rest) = some (u, rest)

theorem ElementType.Reads.isPayload {type : ElementType} {p : Payload} {u : Value} (h : type.Reads p u)
    (number : Nat) : IsPayload type.wireType number p.bytes := by
  obtain ⟨q, heq, hq⟩ := type.reader_frames.some (h []) number
  rw [List.append_nil, List.append_nil] at heq
  exact heq ▸ hq

/-- Payloads one after the other are read one by one. -/
theorem ElementType.readAll_flatMap {type : ElementType} {ps : List Payload} {us : List Value}
    (h : List.Forall₂ type.Reads ps us) : readAll type.reader (ps.flatMap Payload.bytes) = us := by
  induction h with
  | nil => rw [readAll]; rfl
  | @cons p u ps us hp _ ih =>
    have hread := hp (ps.flatMap Payload.bytes)
    have hlt := type.reader_advances _ _ _ hread
    have hne : (p.bytes ++ ps.flatMap Payload.bytes).isEmpty = false := by
      rw [List.isEmpty_eq_false_iff]
      intro hnil
      rw [hnil] at hlt
      simp at hlt
    rw [List.flatMap_cons, readAll, if_neg (by rw [hne]; simp), hread]
    dsimp only
    rw [if_pos hlt, ih]

end Codec

/-! ### Records of a field -/

def Wire.Slice.make {number : Nat} {form : WireType} {payload : List UInt8} (hpos : 1 ≤ number)
    (hlt : number < 0x20000000) (hp : IsPayload form number payload) : Slice where
  number := number
  form := form
  tag := varintOfNat (8 * number + form.code)
  payload := payload
  tag_varint := isVarint_varintOfNat (by cases form <;> simp only [WireType.code, maxVarintBytes] <;> omega) (by decide)
  tag_val := by
    rw [groupVal_varintOfNat, Nat.mod_eq_of_lt]
    cases form <;> simp only [WireType.code] <;> omega
  number_pos := hpos
  payload_form := hp

namespace Codec

theorem record_eq_bytes {number : Nat} {form : WireType} {payload : List UInt8} (hpos : 1 ≤ number)
    (hlt : number < 0x20000000) (hp : IsPayload form number payload) :
    record (FieldPlan.tagOf number form) payload = (Slice.make hpos hlt hp).bytes := by
  rw [record, FieldPlan.tagOf, varintOfInt_nonneg (by omega), Slice.bytes]
  congr 2

private theorem ElementType.wireType_of_isPackable {type : ElementType} (h : type.isPackable = true) :
    type.wireType ≠ .delimited := by
  cases type with
  | enum byName byNumber zeroName => exact fun hform => by simp [ElementType.wireType] at hform
  | scalar type =>
    cases type <;>
      simp_all [ElementType.wireType, ElementType.isPackable, ScalarType.wireType, ScalarType.isPackable]

namespace Field

theorem arm?_single {f : Field} {type : ElementType} (htype : f.type = .element type) {number : Nat}
    (hnumber : f.number = number) : f.arm? number type.wireType.code = some (.single type) := by
  have hpacked : (f.repeated && type.isPackable && type.wireType.code = WireType.delimited.code) = false := by
    by_contra h
    simp only [Bool.not_eq_false, Bool.and_eq_true, decide_eq_true_eq] at h
    exact type.wireType_of_isPackable h.1.2 (WireType.code_injective h.2)
  rw [arm?, if_neg (by simp [hnumber]), htype]
  dsimp only
  rw [hpacked, if_neg (by simp), if_pos rfl]

theorem arm?_packed {f : Field} {type : ElementType} (htype : f.type = .element type) (hrepeated : f.repeated = true)
    (hpackable : type.isPackable = true) {number : Nat} (hnumber : f.number = number) :
    f.arm? number WireType.delimited.code = some (.packed type) := by
  rw [arm?, if_neg (by simp [hnumber]), htype]
  dsimp only
  rw [hrepeated, hpackable, if_pos (by simp)]

theorem arm?_message {f : Field} {child : String} (htype : f.type = .message child) {number : Nat}
    (hnumber : f.number = number) : f.arm? number WireType.delimited.code = some (.message child) := by
  rw [arm?, if_neg (by simp [hnumber]), htype]
  dsimp only
  rw [if_pos rfl]

def holds (f : Field) (us : List Value) : Option Value :=
  if f.repeated then if us.isEmpty then none else some (.list us) else us.getLast?

theorem gathered_singletons (f : Field) (us : List Value) : f.gathered (us.map ([·])) = f.holds us := by
  have hflatten : (us.map ([·])).flatten = us := by induction us <;> simp_all
  rw [gathered, holds, hflatten, List.isEmpty_map]

end Field

end Codec

namespace Codecs

/-- Records of one field that carry some values. -/
structure Carries (cs : Codecs) (f : Field) (bytes : List UInt8) (us : List Value) (rs : List Slice) : Prop where
  bytes_eq : bytes = rs.flatMap Slice.bytes
  claimed : ∀ r ∈ rs, (f.arm? r.number r.form.code).isSome = true
  gathered : f.gathered (cs.hits f rs) = f.holds us

/-- A record of a field, with the arm that takes it. -/
theorem exists_slice_record {cs : Codecs} {f : Field} (hpos : 1 ≤ f.number) (hlt : f.number < 0x20000000)
    {form : WireType} {payload : List UInt8} (hp : ∀ number, IsPayload form number payload) {arm : Arm}
    (harm : ∀ number : Nat, f.number = number → f.arm? number form.code = some arm) :
    ∃ r : Slice, r.bytes = record (FieldPlan.tagOf f.number form) payload ∧
      cs.hits f [r] = [cs.values arm payload] := by
  obtain ⟨n, hn⟩ := Int.eq_ofNat_of_zero_le (show 0 ≤ f.number by omega)
  refine ⟨Slice.make (by omega) (by omega) (hp n), ?_, hits_singleton_of_arm? (harm n hn)⟩
  rw [hn, record_eq_bytes]

theorem claimed_of_hits {cs : Codecs} {f : Field} {r : Slice} {vs : List Value} (h : cs.hits f [r] = [vs]) :
    (f.arm? r.number r.form.code).isSome = true := by
  rw [Option.isSome_iff_ne_none]
  intro hnone
  rw [hits_singleton_of_none hnone] at h
  simp at h

/-- Records that each carry one value carry them all. -/
theorem carries_flatMap {α : Type} {cs : Codecs} {f : Field} {write : α → List UInt8} {xs : List α} {us : List Value}
    (h : List.Forall₂ (fun x u => ∃ r : Slice, r.bytes = write x ∧ cs.hits f [r] = [[u]]) xs us) :
    ∃ rs, cs.Carries f (xs.flatMap write) us rs := by
  obtain ⟨rs, hbytes, hclaimed, hhits⟩ : ∃ rs : List Slice, xs.flatMap write = rs.flatMap Slice.bytes ∧
      (∀ r ∈ rs, (f.arm? r.number r.form.code).isSome = true) ∧ cs.hits f rs = us.map ([·]) := by
    induction h with
    | nil => exact ⟨[], rfl, by simp, rfl⟩
    | cons hx _ ih =>
      obtain ⟨r, hr, hhit⟩ := hx
      obtain ⟨rs, hrs, hclaimed, hhits⟩ := ih
      refine ⟨r :: rs, ?_, List.forall_mem_cons.2 ⟨claimed_of_hits hhit, hclaimed⟩, ?_⟩
      · rw [List.flatMap_cons, List.flatMap_cons, hr, hrs]
      · rw [← List.singleton_append, hits_append, hhit, hhits]
        rfl
  exact ⟨rs, hbytes, hclaimed, by rw [hhits, Field.gathered_singletons]⟩

theorem exists_slice_element {cs : Codecs} {f : Field} (hpos : 1 ≤ f.number) (hlt : f.number < 0x20000000)
    {type : ElementType} (htype : f.type = .element type) {p : Payload} {u : Value} (h : type.Reads p u) :
    ∃ r : Slice, r.bytes = record f.tag p.bytes ∧ cs.hits f [r] = [[u]] := by
  have hread := h []
  rw [List.append_nil] at hread
  have hvalues : cs.values (.single type) p.bytes = [u] :=
    values_of_ok (by rw [valuesOf, hread]; rfl)
  obtain ⟨r, hr, hhit⟩ := exists_slice_record hpos hlt (h.isPayload) fun number hnumber =>
    Field.arm?_single htype hnumber
  refine ⟨r, ?_, hvalues ▸ hhit⟩
  rw [hr, Field.tag, htype]
  rfl

/-- Elements that share a record, also where there are none. -/
theorem exists_slice_packed {cs : Codecs} {f : Field} (hpos : 1 ≤ f.number) (hlt : f.number < 0x20000000)
    (hrepeated : f.repeated = true) {type : ElementType} (htype : f.type = .element type)
    (hpackable : type.isPackable = true) {ps : List Payload} {us : List Value} (h : List.Forall₂ type.Reads ps us)
    (hblock : (ps.flatMap Payload.bytes).length < 0x100000000) :
    ∃ r : Slice, r.bytes = record f.packedTag (delimited (ps.flatMap Payload.bytes)) ∧ cs.hits f [r] = [us] := by
  have hread := readDelimited_delimited hblock []
  rw [List.append_nil] at hread
  have hvalues : cs.values (.packed type) (delimited (ps.flatMap Payload.bytes)) = us := by
    apply values_of_ok
    rw [valuesOf, hread, Option.map_some, Option.getD_some, type.readAll_flatMap h]
  obtain ⟨r, hr, hhit⟩ := exists_slice_record hpos hlt (fun number => isPayload_delimited hblock number)
    fun number hnumber => Field.arm?_packed htype hrepeated hpackable hnumber
  exact ⟨r, hr, hvalues ▸ hhit⟩

/-- A value that is not repeated is carried unless it is left out as a zero. -/
theorem carries_singular {cs : Codecs} {f : Field} (hf : f.WellFormed cs) (hsingular : f.repeated = false)
    {type : ElementType} (htype : f.type = .element type) {p : Payload} {u : Value} (h : type.Reads p u) :
    ∃ rs, cs.Carries f (f.elementRecords [p]) (if p.isZero && !f.presence then [] else [u]) rs := by
  rw [Field.elementRecords, if_neg (by rw [hsingular]; simp)]
  refine carries_flatMap ?_
  cases hzero : p.isZero && !f.presence with
  | true =>
    simp only [Bool.and_eq_true, Bool.not_eq_true'] at hzero
    simp [hzero]
  | false =>
    have hfilter : (!p.isZero || f.presence) = true := by
      rw [← Bool.not_eq_false', ← hzero]
      cases p.isZero <;> cases f.presence <;> rfl
    rw [List.filter_cons, if_pos hfilter, List.filter_nil, if_neg (by simp)]
    exact .cons (exists_slice_element hf.number_pos hf.number_lt htype h) .nil

/-- Repeated elements are carried in one record or in one record each. -/
theorem carries_repeated {cs : Codecs} {f : Field} (hf : f.WellFormed cs) (hrepeated : f.repeated = true)
    {type : ElementType} (htype : f.type = .element type) {ps : List Payload} {us : List Value}
    (h : List.Forall₂ type.Reads ps us)
    (hblock : f.packed = true → (ps.flatMap Payload.bytes).length < 0x100000000) :
    ∃ rs, cs.Carries f (f.elementRecords ps) us rs := by
  rw [Field.elementRecords, if_pos hrepeated]
  by_cases hpacked : f.packed = true
  · rw [if_pos hpacked]
    obtain ⟨_, type', htype', hpackable⟩ := hf.packed hpacked
    obtain rfl : type = type' := FieldType.element.inj (htype.symm.trans htype')
    cases h with
    | nil => exact ⟨[], rfl, by simp, by rw [hits, List.filterMap_nil, Field.gathered, Field.holds]; rfl⟩
    | @cons p u ps us hp hps =>
      have hall : List.Forall₂ type.Reads (p :: ps) (u :: us) := .cons hp hps
      have hne : ((p :: ps).flatMap Payload.bytes).isEmpty = false := by
        rw [List.flatMap_cons, List.isEmpty_eq_false_iff]
        exact fun hnil => (hp.isPayload 0).ne_nil (List.append_eq_nil_iff.1 hnil).1
      obtain ⟨r, hr, hhit⟩ := exists_slice_packed hf.number_pos hf.number_lt hrepeated htype hpackable hall
        (hblock hpacked)
      refine ⟨[r], ?_, ?_, ?_⟩
      · rw [if_neg (by rw [hne]; simp), List.flatMap_singleton, hr]
      · rw [List.forall_mem_singleton]
        exact claimed_of_hits hhit
      · rw [hhit, Field.gathered, Field.holds, if_pos hrepeated, if_pos hrepeated]
        simp
  · rw [if_neg hpacked]
    exact carries_flatMap (h.imp fun p u hp => exists_slice_element hf.number_pos hf.number_lt htype hp)

/-! ### Messages -/

private theorem encodeItem_eq_ok {cs : Codecs} {f : Field} {inner : Codec} {item : Value} (h : item.isNull = false)
    {part : List UInt8} : cs.encodeItem f inner item = .ok part ↔
      ∃ block, cs.encode inner item = .ok block ∧ record f.tag (delimited block) = part := by
  rw [encodeItem, if_neg (by rw [h]; simp), bind_eq_ok]
  refine exists_congr fun block => and_congr_right fun _ => ?_
  exact ⟨fun heq => Except.ok.inj heq, fun heq => heq ▸ rfl⟩

private theorem encodeItems_eq_ok {cs : Codecs} {f : Field} {inner : Codec} {items : List Value} {bytes : List UInt8} :
    (∃ parts, items.mapM (cs.encodeItem f inner) = .ok parts ∧ bytes = parts.flatten) ↔
      ∃ blocks, List.Forall₂ (fun item block => cs.encode inner item = .ok block)
        (items.filter fun item => !item.isNull) blocks ∧
        bytes = blocks.flatMap fun block => record f.tag (delimited block) := by
  induction items generalizing bytes with
  | nil =>
    simp only [mapM_eq_ok, List.forall₂_nil_left_iff, List.filter_nil]
    constructor
    · rintro ⟨_, rfl, rfl⟩
      exact ⟨[], rfl, rfl⟩
    · rintro ⟨_, rfl, rfl⟩
      exact ⟨[], rfl, rfl⟩
  | cons item items ih =>
    cases hnull : item.isNull with
    | true =>
      have hitem : cs.encodeItem f inner item = .ok [] := by rw [encodeItem, if_pos hnull]
      rw [List.filter_cons_of_neg (by simp [hnull]), ← ih, List.mapM_cons, hitem, ok_bind]
      constructor
      · rintro ⟨parts, hparts, rfl⟩
        obtain ⟨parts', hparts', heq⟩ := bind_eq_ok.1 hparts
        exact ⟨parts', hparts', by rw [← Except.ok.inj heq]; rfl⟩
      · rintro ⟨parts, hparts, rfl⟩
        exact ⟨[] :: parts, by rw [hparts]; rfl, rfl⟩
    | false =>
      rw [List.filter_cons_of_pos (by simp [hnull]), List.mapM_cons]
      constructor
      · rintro ⟨parts, hparts, rfl⟩
        obtain ⟨part, hpart, hrest⟩ := bind_eq_ok.1 hparts
        obtain ⟨parts', hparts', heq⟩ := bind_eq_ok.1 hrest
        obtain ⟨block, hblock, rfl⟩ := (encodeItem_eq_ok hnull).1 hpart
        obtain ⟨blocks, hblocks, hbytes⟩ := ih.1 ⟨parts', hparts', rfl⟩
        refine ⟨block :: blocks, .cons hblock hblocks, ?_⟩
        rw [← Except.ok.inj heq, List.flatten_cons, hbytes, List.flatMap_cons]
      · rintro ⟨blocks, hblocks, rfl⟩
        cases hblocks with
        | @cons _ block _ blocks hblock hblocks =>
          obtain ⟨parts, hparts, hbytes⟩ := ih.2 ⟨blocks, hblocks, rfl⟩
          refine ⟨record f.tag (delimited block) :: parts, ?_, ?_⟩
          · rw [(encodeItem_eq_ok hnull).2 ⟨block, hblock, rfl⟩, ok_bind, hparts]
            rfl
          · rw [List.flatMap_cons, hbytes, List.flatten_cons]

theorem encodeValue_message {cs : Codecs} {f : Field} {child : String} (htype : f.type = .message child) {inner : Codec}
    (hinner : cs.codec? child = some inner) {w : Value} {bytes : List UInt8} :
    cs.encodeValue f w = .ok bytes ↔
      ∃ blocks, List.Forall₂ (fun item block => cs.encode inner item = .ok block)
        ((f.itemsOf w).filter fun item => !item.isNull) blocks ∧
        bytes = blocks.flatMap fun block => record f.tag (delimited block) := by
  rw [← encodeItems_eq_ok, encodeValue, htype]
  dsimp only
  rw [child_eq_ok.2 hinner, ok_bind, bind_eq_ok]
  refine exists_congr fun parts => and_congr_right fun _ => ?_
  exact ⟨fun h => (Except.ok.inj h).symm, fun h => h ▸ rfl⟩

theorem exists_slice_message {cs : Codecs} {f : Field} (hf : f.WellFormed cs) {child : String}
    (htype : f.type = .message child) {inner : Codec} (hinner : cs.codec? child = some inner) {block : List UInt8}
    (hlength : block.length < 0x100000000) {u : Value} (hu : cs.decode inner block = .ok u) :
    ∃ r : Slice, r.bytes = record f.tag (delimited block) ∧ cs.hits f [r] = [[u]] := by
  have hread : readDelimited (delimited block) = some (block, []) := by
    have := readDelimited_delimited hlength []
    rwa [List.append_nil] at this
  have hvalues : cs.values (.message child) (delimited block) = [u] := by
    refine values_of_ok ?_
    rw [valuesOf, child_eq_ok.2 hinner, ok_bind, hread]
    dsimp only
    rw [hu]
    rfl
  obtain ⟨r, hr, hhit⟩ := exists_slice_record hf.number_pos hf.number_lt (fun number => isPayload_delimited hlength number)
    fun number hnumber => Field.arm?_message htype hnumber
  refine ⟨r, ?_, hvalues ▸ hhit⟩
  rw [hr, Field.tag, htype]
  rfl

/-- The records of messages carry what their bytes are decoded to. -/
theorem carries_messages {cs : Codecs} {f : Field} (hf : f.WellFormed cs) {child : String}
    (htype : f.type = .message child) {inner : Codec} (hinner : cs.codec? child = some inner)
    {blocks : List (List UInt8)} {us : List Value}
    (h : List.Forall₂ (fun block u => block.length < 0x100000000 ∧ cs.decode inner block = .ok u) blocks us) :
    ∃ rs, cs.Carries f (blocks.flatMap fun block => record f.tag (delimited block)) us rs :=
  carries_flatMap (h.imp fun _ _ hu => exists_slice_message hf htype hinner hu.1 hu.2)

end Codecs

end MessageCodec
