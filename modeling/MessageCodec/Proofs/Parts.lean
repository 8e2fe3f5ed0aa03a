import MessageCodec.Proofs.Encoding

/-!
# Parts of a message

When two messages are the same: they have the same value under every key, in whatever order. Further the
messages inside a message and the blocks that are written with their length in front; where the bytes of
the whole have a length of 32 bits, so has every block.
-/

namespace MessageCodec

open Codec Wire

/-! ### The same message -/

/-- The same value, where a message counts by what is under its keys. -/
inductive Value.Same : Value → Value → Prop
  | refl (v : Value) : Same v v
  | list {xs ys : List Value} (hlength : xs.length = ys.length)
      (h : ∀ (i : Nat) (x y : Value), xs[i]? = some x → ys[i]? = some y → Same x y) : Same (.list xs) (.list ys)
  | mapping {xs ys : Entries} (hkeys : ∀ key, (xs.get? key).isSome = (ys.get? key).isSome)
      (h : ∀ key x y, xs.get? key = some x → ys.get? key = some y → Same x y) : Same (.mapping xs) (.mapping ys)

namespace Value

theorem same_list {xs ys : List Value} (h : List.Forall₂ Same xs ys) : Same (.list xs) (.list ys) := by
  refine .list h.length_eq fun i x y hx hy => ?_
  rw [List.getElem?_eq_some_iff] at hx hy
  obtain ⟨hi, rfl⟩ := hx
  obtain ⟨hj, rfl⟩ := hy
  exact List.Forall₂.get h hi hj

theorem same_mapping {xs ys : Entries} (h : ∀ key, Option.Rel Same (xs.get? key) (ys.get? key)) :
    Same (.mapping xs) (.mapping ys) := by
  refine .mapping (fun key => ?_) (fun key x y hx hy => ?_)
  · have hrel := h key
    generalize xs.get? key = a at hrel ⊢
    generalize ys.get? key = b at hrel ⊢
    cases hrel <;> rfl
  · have hrel := h key
    rw [hx, hy] at hrel
    cases hrel with
    | some hxy => exact hxy

theorem same_rel_refl (a : Option Value) : Option.Rel Same a a := by
  cases a with
  | none => exact .none
  | some v => exact .some (.refl v)

end Value

/-! ### Messages inside a message -/

namespace Codecs

/-- A message and the messages that its fields hold, at any depth. -/
inductive Inside (cs : Codecs) (c : Codec) (v : Value) : Codec → Value → Prop
  | self : Inside cs c v c v
  | child {c' inner : Codec} {v' w item : Value} {f : Field} {name : String} (h : Inside cs c v c' v')
      (hf : f ∈ c'.fields) (htype : f.type = .message name) (hinner : cs.codec? name = some inner)
      (hw : v'.field? f.keys = some w) (hitem : item ∈ f.itemsOf w) (hnull : item.isNull = false) :
      Inside cs c v inner item

/-- What is inside a message that a field holds is inside the whole. -/
theorem Inside.of_child {cs : Codecs} {c inner : Codec} {v w item : Value} {f : Field} {name : String}
    (hf : f ∈ c.fields) (htype : f.type = .message name) (hinner : cs.codec? name = some inner)
    (hw : v.field? f.keys = some w) (hitem : item ∈ f.itemsOf w) (hnull : item.isNull = false)
    {c' : Codec} {v' : Value} (h : cs.Inside inner item c' v') : cs.Inside c v c' v' := by
  induction h with
  | self => exact .child .self hf htype hinner hw hitem hnull
  | child _ hf' htype' hinner' hw' hitem' hnull' ih => exact .child ih hf' htype' hinner' hw' hitem' hnull'

/-- A property of a message and of all messages inside it. -/
def Everywhere (cs : Codecs) (P : Codec → Value → Prop) (c : Codec) (v : Value) : Prop :=
  ∀ c' v', cs.Inside c v c' v' → P c' v'

theorem Everywhere.here {cs : Codecs} {P : Codec → Value → Prop} {c : Codec} {v : Value}
    (h : cs.Everywhere P c v) : P c v := h c v .self

theorem Everywhere.child {cs : Codecs} {P : Codec → Value → Prop} {c inner : Codec} {v w item : Value} {f : Field}
    {name : String} (h : cs.Everywhere P c v) (hf : f ∈ c.fields) (htype : f.type = .message name)
    (hinner : cs.codec? name = some inner) (hw : v.field? f.keys = some w) (hitem : item ∈ f.itemsOf w)
    (hnull : item.isNull = false) : cs.Everywhere P inner item :=
  fun c' v' hinside => h c' v' (.of_child hf htype hinner hw hitem hnull hinside)

/-- What holds of a message and of everything inside the messages that its fields hold. -/
theorem Everywhere.of_children {cs : Codecs} {P : Codec → Value → Prop} {c : Codec} {v : Value} (hhere : P c v)
    (hchild : ∀ f ∈ c.fields, ∀ name inner w item, f.type = .message name → cs.codec? name = some inner →
      v.field? f.keys = some w → item ∈ f.itemsOf w → item.isNull = false → cs.Everywhere P inner item) :
    cs.Everywhere P c v := by
  -- inside a message is the message itself or what is inside one that it holds
  have hinside : ∀ c' v', cs.Inside c v c' v' → (c' = c ∧ v' = v) ∨ ∃ inner item, cs.Everywhere P inner item ∧
      cs.Inside inner item c' v' := by
    intro c' v' h
    induction h with
    | self => exact Or.inl ⟨rfl, rfl⟩
    | child _ hf htype hinner hw hitem hnull ih =>
      rcases ih with ⟨rfl, rfl⟩ | ⟨inner, item, hall, hbetween⟩
      · exact Or.inr ⟨_, _, hchild _ hf _ _ _ _ htype hinner hw hitem hnull, .self⟩
      · exact Or.inr ⟨inner, item, hall, .child hbetween hf htype hinner hw hitem hnull⟩
  intro c' v' h
  rcases hinside c' v' h with ⟨rfl, rfl⟩ | ⟨inner, item, hall, hbetween⟩
  · exact hhere
  · exact hall c' v' hbetween

/-! ### Blocks -/

/-- The blocks that a message itself writes with their length in front: texts and byte strings, elements
that share a record, and the bytes of messages. -/
inductive Block (cs : Codecs) (c : Codec) (v : Value) : List UInt8 → Prop
  | content {f : Field} {w item : Value} {type : ElementType} {p : Payload} {block : List UInt8}
      (hf : f ∈ c.fields) (hw : v.field? f.keys = some w) (htype : f.type = .element type)
      (hform : type.wireType = .delimited) (hitem : item ∈ f.itemsOf w) (hp : type.payload item = .ok p)
      (hblock : p.bytes = delimited block) : Block cs c v block
  | packed {f : Field} {w : Value} {type : ElementType} {ps : List Payload} (hf : f ∈ c.fields)
      (hw : v.field? f.keys = some w) (htype : f.type = .element type) (hrepeated : f.repeated = true)
      (hpacked : f.packed = true) (hps : (f.itemsOf w).mapM type.payload = .ok ps) :
      Block cs c v (ps.flatMap Payload.bytes)
  | message {f : Field} {w item : Value} {name : String} {inner : Codec} {bytes : List UInt8} (hf : f ∈ c.fields)
      (hw : v.field? f.keys = some w) (htype : f.type = .message name) (hinner : cs.codec? name = some inner)
      (hitem : item ∈ f.itemsOf w) (hnull : item.isNull = false) (hbytes : cs.encode inner item = .ok bytes) :
      Block cs c v bytes

/-- Every block of a message, at any depth, has a length of 32 bits. -/
def Fits (cs : Codecs) : Codec → Value → Prop :=
  cs.Everywhere fun c v => ∀ block, cs.Block c v block → block.length < 0x100000000

theorem length_le_delimited (block : List UInt8) : block.length ≤ (delimited block).length := by
  rw [delimited, List.length_append]
  exact Nat.le_add_left _ _

theorem length_le_record (tag : Int) (payload : List UInt8) : payload.length ≤ (record tag payload).length := by
  rw [record, List.length_append]
  exact Nat.le_add_left _ _

theorem length_le_flatMap {α : Type} (g : α → List UInt8) {as : List α} {a : α} (h : a ∈ as) :
    (g a).length ≤ (as.flatMap g).length := by
  rw [List.flatMap_def]
  exact (List.sublist_flatten_of_mem (List.mem_map_of_mem h)).length_le

/-- A payload stands in the records of its field, unless it is a zero that is left out. -/
theorem length_le_elementRecords {f : Field} {ps : List Payload} {p : Payload} (hp : p ∈ ps)
    (hkept : p.isZero = false ∨ f.repeated = true) : p.bytes.length ≤ (f.elementRecords ps).length := by
  have hrecord := length_le_record f.tag p.bytes
  rw [Field.elementRecords]
  split
  · have hpacked := length_le_flatMap Payload.bytes hp
    split
    · split
      · rename_i hempty
        rw [List.isEmpty_iff.1 hempty] at hpacked
        exact hpacked
      · have hdelimited := length_le_delimited (ps.flatMap Payload.bytes)
        have htagged := length_le_record f.packedTag (delimited (ps.flatMap Payload.bytes))
        omega
    · have hall := length_le_flatMap (fun p => record f.tag p.bytes) hp
      omega
  · rename_i hsingular
    have hmem : p ∈ ps.filter fun p => !p.isZero || f.presence := by
      rw [List.mem_filter, hkept.resolve_right hsingular]
      exact ⟨hp, rfl⟩
    have hall := length_le_flatMap (fun p => record f.tag p.bytes) hmem
    omega

private theorem delimited_eq_nil {block : List UInt8} (h : delimited block = delimited []) : block = [] := by
  have hpos : 0 < (varintOfNat block.length).length := by
    rw [varintOfNat]
    split <;> exact Nat.succ_pos _
  have hempty : (delimited []).length = 1 := by
    rw [delimited, List.length_nil, varintOfNat]
    rfl
  have hlength := congrArg List.length h
  rw [hempty, delimited, List.length_append] at hlength
  exact List.eq_nil_of_length_eq_zero (by omega)

/-- A zero that has its length in front is empty. -/
theorem eq_nil_of_isZero {type : ElementType} (hform : type.wireType = .delimited) {v : Value} {p : Payload}
    (h : type.payload v = .ok p) (hzero : p.isZero = true) {block : List UInt8} (hblock : p.bytes = delimited block) :
    block = [] := by
  obtain ⟨bs, rfl⟩ : ∃ bs, p = ElementType.block bs := by
    cases type with
    | enum => simp [ElementType.wireType] at hform
    | scalar type =>
      cases type
      case string | bytes =>
        obtain ⟨s, _, hp⟩ := bind_eq_ok.1 h
        exact ⟨_, (Except.ok.inj hp).symm⟩
      all_goals simp [ElementType.wireType, ScalarType.wireType] at hform
  obtain rfl := List.isEmpty_iff.1 hzero
  exact delimited_eq_nil hblock.symm

theorem exists_record {cs : Codecs} {c : Codec} {v : Value} {bytes : List UInt8} (h : cs.encode c v = .ok bytes)
    {f : Field} (hf : f ∈ c.fields) : ∃ bs, cs.encodeField v f = .ok bs ∧ bs.length ≤ bytes.length := by
  obtain ⟨records, kept, hrecords, _, rfl⟩ := encode_eq_ok.1 h
  obtain ⟨bs, hbs, hencode⟩ := exists_of_forall₂ hrecords.flip hf
  refine ⟨bs, hencode, ?_⟩
  have hle := (List.sublist_flatten_of_mem hbs).length_le
  rw [List.length_append]
  omega

/-- Where a message is encoded, so are the messages that its fields hold. -/
theorem exists_encode_of_item {cs : Codecs} {c inner : Codec} {v w item : Value} {f : Field} {name : String}
    {bytes : List UInt8} (h : cs.encode c v = .ok bytes) (hf : f ∈ c.fields) (htype : f.type = .message name)
    (hinner : cs.codec? name = some inner) (hw : v.field? f.keys = some w) (hitem : item ∈ f.itemsOf w)
    (hnull : item.isNull = false) : ∃ block, cs.encode inner item = .ok block := by
  obtain ⟨bs, hencode, _⟩ := exists_record h hf
  rw [encodeField, hw, encodeHeld] at hencode
  obtain ⟨blocks, hblocks, _⟩ := (encodeValue_message htype hinner).1 hencode
  obtain ⟨block, _, hblock⟩ := exists_of_forall₂ hblocks.flip (List.mem_filter.2 ⟨hitem, by rw [hnull]; rfl⟩)
  exact ⟨block, hblock⟩

/-- No block is longer than the bytes it stands in. -/
theorem length_le_of_block {cs : Codecs} {c : Codec} {v : Value} {bytes : List UInt8} (h : cs.encode c v = .ok bytes)
    {block : List UInt8} (hblock : cs.Block c v block) : block.length ≤ bytes.length := by
  cases hblock with
  | @content f w item type p _ hf hw htype hform hitem hp hbytes =>
    obtain ⟨bs, hbs, hle⟩ := exists_record h hf
    rw [encodeField, hw, encodeHeld, encodeValue, htype] at hbs
    obtain ⟨ps, hps, rfl⟩ := encodeElements_eq_ok.1 hbs
    obtain ⟨p', hmem, hp'⟩ := exists_of_forall₂ hps.flip hitem
    obtain rfl := Except.ok.inj (hp.symm.trans hp')
    have hdelimited := length_le_delimited block
    cases hzero : p.isZero with
    | true => rw [eq_nil_of_isZero hform hp hzero hbytes]; exact Nat.zero_le _
    | false =>
      have hlength := length_le_elementRecords hmem (Or.inl hzero) (f := f)
      rw [hbytes] at hlength
      omega
  | @packed f w type ps hf hw htype hrepeated hpacked hps =>
    obtain ⟨bs, hbs, hle⟩ := exists_record h hf
    rw [encodeField, hw, encodeHeld, encodeValue, htype] at hbs
    obtain ⟨ps', hps', rfl⟩ := encodeElements_eq_ok.1 hbs
    obtain rfl := Except.ok.inj (hps.symm.trans (mapM_eq_ok.2 hps'))
    rw [Field.elementRecords, if_pos hrepeated, if_pos hpacked] at hle
    split at hle
    · rename_i hempty
      rw [List.isEmpty_iff.1 hempty]
      exact Nat.zero_le _
    · have hdelimited := length_le_delimited (ps.flatMap Payload.bytes)
      have htagged := length_le_record f.packedTag (delimited (ps.flatMap Payload.bytes))
      omega
  | @message f w item name inner _ hf hw htype hinner hitem hnull hbytes =>
    obtain ⟨bs, hbs, hle⟩ := exists_record h hf
    rw [encodeField, hw, encodeHeld] at hbs
    obtain ⟨blocks, hblocks, rfl⟩ := (encodeValue_message htype hinner).1 hbs
    obtain ⟨block', hmem, hblock'⟩ := exists_of_forall₂ hblocks.flip (List.mem_filter.2 ⟨hitem, by rw [hnull]; rfl⟩)
    obtain rfl := Except.ok.inj (hbytes.symm.trans hblock')
    have hdelimited := length_le_delimited block
    have htagged := length_le_record f.tag (delimited block)
    have hall := length_le_flatMap (fun block => record f.tag (delimited block)) hmem
    omega

/-- A message whose bytes have a length of 32 bits fits. -/
theorem fits_of_encode {cs : Codecs} {c : Codec} {v : Value} {bytes : List UInt8} (h : cs.encode c v = .ok bytes)
    (hlength : bytes.length < 0x100000000) : cs.Fits c v := by
  intro c' v' hinside
  have hencode : ∃ bytes', cs.encode c' v' = .ok bytes' ∧ bytes'.length ≤ bytes.length := by
    induction hinside with
    | self => exact ⟨bytes, h, le_rfl⟩
    | child _ hf htype hinner hw hitem hnull ih =>
      obtain ⟨bytes', hbytes', hle⟩ := ih
      obtain ⟨block, hblock⟩ := exists_encode_of_item hbytes' hf htype hinner hw hitem hnull
      exact ⟨block, hblock, (length_le_of_block hbytes' (.message hf hw htype hinner hitem hnull hblock)).trans hle⟩
  obtain ⟨bytes', hbytes', hle⟩ := hencode
  intro block hblock
  have := length_le_of_block hbytes' hblock
  omega

end Codecs

end MessageCodec
