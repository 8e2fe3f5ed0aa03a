import MessageCodec.Proofs.EnumTable
import MessageCodec.Proofs.WellFormed

/-!
# Well-formed plans

What a plan promises before it is made ready to run: numbers, stems and keys that tell its fields apart,
types that are known, messages that have plans of their own, and zero as the default where presence is
not kept. Well-formed plans can be made ready, and the codecs keep the promises, as long as decoded
values are put under keys that can be looked up.
-/

namespace MessageCodec

open Codec

/-! ### Keys -/

namespace FieldPlan

theorem mem_insertNew {s key : String} {set : List String} : key ∈ Naming.insertNew s set ↔ key ∈ set ∨ key = s := by
  rw [Naming.insertNew]
  split
  · rename_i hmem
    rw [List.contains_iff_mem] at hmem
    constructor
    · exact Or.inl
    · rintro (h | rfl)
      · exact h
      · exact hmem
  · rw [List.mem_append, List.mem_singleton]

theorem mem_distinctKeys {keys : List String} {key : String} : key ∈ distinctKeys keys ↔ key ∈ keys ∧ key ≠ "" := by
  have hfold : ∀ set : List String,
      (key ∈ keys.foldl (fun set s => if s.isEmpty then set else Naming.insertNew s set) set) ↔ key ∈ set ∨ (key ∈ keys ∧ key ≠ "") := by
    induction keys with
    | nil => simp
    | cons s keys ih =>
      intro set
      rw [List.foldl_cons, ih, List.mem_cons]
      split
      · rename_i hempty
        rw [String.isEmpty_iff] at hempty
        subst hempty
        grind
      · rename_i hempty
        rw [String.isEmpty_iff] at hempty
        rw [mem_insertNew]
        grind
  rw [distinctKeys, hfold]
  simp

theorem mem_outputKeys_both {f : FieldPlan} {key : String} :
    key ∈ f.outputKeys .both ↔ key = f.name ∨ key = f.jsonKey := by
  rw [outputKeys, mem_insertNew, List.mem_singleton]

/-- The keys of a decoded value can be looked up, unless they are empty. -/
theorem mem_lookupKeys_of_mem_outputKeys {choice : DecodeCase} {f : FieldPlan} {key : String}
    (h : key ∈ f.outputKeys choice) (hne : key ≠ "") : key ∈ f.lookupKeys := by
  rw [lookupKeys, mem_distinctKeys]
  refine ⟨?_, hne⟩
  cases choice with
  | snake => simpa [outputKeys] using Or.inl (List.mem_singleton.1 h)
  | camel => simpa [outputKeys] using Or.inr (Or.inl (List.mem_singleton.1 h))
  | both =>
    rw [mem_outputKeys_both] at h
    rcases h with rfl | rfl <;> simp

theorem name_mem_outputKeys (f : FieldPlan) : f.name ∈ f.outputKeys .both := mem_outputKeys_both.2 (.inl rfl)

theorem jsonKey_mem_outputKeys (f : FieldPlan) : f.jsonKey ∈ f.outputKeys .both := mem_outputKeys_both.2 (.inr rfl)

theorem mem_both_of_mem_outputKeys {choice : DecodeCase} {f : FieldPlan} {key : String}
    (h : key ∈ f.outputKeys choice) : key ∈ f.outputKeys .both := by
  rw [mem_outputKeys_both]
  cases choice with
  | snake => exact .inl (List.mem_singleton.1 h)
  | camel => exact .inr (List.mem_singleton.1 h)
  | both => exact mem_outputKeys_both.1 h

theorem outputKeys_nodup (choice : DecodeCase) (f : FieldPlan) : (f.outputKeys choice).Nodup := by
  cases choice with
  | snake => exact List.nodup_singleton _
  | camel => exact List.nodup_singleton _
  | both =>
    rw [outputKeys, Naming.insertNew]
    split
    · exact List.nodup_singleton _
    · rename_i hne
      simpa [eq_comm] using hne

theorem outputKeys_ne_nil (choice : DecodeCase) (f : FieldPlan) : f.outputKeys choice ≠ [] := by
  cases choice with
  | snake => simp [outputKeys]
  | camel => simp [outputKeys]
  | both =>
    rw [outputKeys, Naming.insertNew]
    split <;> simp

/-! ### Promises -/

/-- What a field holds, as its plan says. -/
inductive Holds (plans : List MessagePlan) (f : FieldPlan) : FieldType → Prop
  | scalar {type : ScalarType} (hkind : f.kind = .scalar) (htype : scalarOf f.scalar = .ok type) :
      Holds plans f (.element (.scalar type))
  | enum {e : Schema.Enum} (hkind : f.kind = .enum) (he : e.WellFormed) (htable : f.enum = some (EnumTable.ofEnum e)) :
      Holds plans f (.element (.enum (EnumTable.ofEnum e).byName (EnumTable.ofEnum e).byNumber
        (EnumTable.ofEnum e).defaultName))
  | message {p : MessagePlan} (hkind : f.kind = .message) (hp : p ∈ plans) (hchild : f.child = some p.fullName) :
      Holds plans f (.message p.fullName)

structure WellFormed (plans : List MessagePlan) (f : FieldPlan) : Prop where
  number_pos : 1 ≤ f.number
  number_lt : f.number < 0x20000000
  packed : f.packed = true → f.repeated = true ∧ f.isPackable = true
  holds : ∃ type, f.Holds plans type
  default : f.repeated = false → f.presence = false → ∀ type, f.Holds plans (.element type) → f.default = type.zero

def ready (choice : DecodeCase) (f : FieldPlan) (type : FieldType) : Field where
  number := f.number
  type := type
  repeated := f.repeated
  packed := f.packed
  presence := f.presence
  keys := f.lookupKeys
  outputs := f.outputKeys choice
  default := f.default

theorem ready_keys (choice : DecodeCase) (f : FieldPlan) (type : FieldType) :
    (f.ready choice type).keys = f.lookupKeys := by
  rw [ready]

theorem ready_outputs (choice : DecodeCase) (f : FieldPlan) (type : FieldType) :
    (f.ready choice type).outputs = f.outputKeys choice := by
  rw [ready]

end FieldPlan

namespace MessagePlan

structure WellFormed (plans : List MessagePlan) (m : MessagePlan) : Prop where
  fields : ∀ f ∈ m.fields, f.WellFormed plans
  numbers : (m.fields.map FieldPlan.number).Nodup
  stems : (m.fields.map fun f => m.stemOf f.number).Nodup
  keys : m.fields.Pairwise fun f g => ∀ key ∈ f.lookupKeys, key ∉ g.lookupKeys
  unknown : ∀ f ∈ m.fields, unknownKey ∉ f.lookupKeys

/-- Every field has a name. The grammar of schemas sees to it; a plan by itself does not. -/
def Named (m : MessagePlan) : Prop := ∀ f ∈ m.fields, f.name ≠ ""

/-- Every field is decoded to keys of its own, of which the first is not empty. -/
structure Exposed (choice : DecodeCase) (m : MessagePlan) : Prop where
  first : ∀ f ∈ m.fields, (f.outputKeys choice).head? ≠ some ""
  outputs : m.fields.Pairwise fun f g => ∀ key ∈ f.outputKeys choice, key ∉ g.outputKeys choice

/-- Names are keys that can be looked up. -/
theorem WellFormed.exposed_snake {plans : List MessagePlan} {m : MessagePlan} (hm : m.WellFormed plans)
    (hnamed : m.Named) : m.Exposed .snake where
  first f hf h := hnamed f hf (Option.some.inj h)
  outputs := by
    refine hm.keys.imp_of_mem fun {f g} hf hg hkeys key hkey hkey' => ?_
    have hname : ∀ f ∈ m.fields, ∀ key ∈ f.outputKeys .snake, key ∈ f.lookupKeys := by
      intro f hf key hkey
      refine FieldPlan.mem_lookupKeys_of_mem_outputKeys hkey ?_
      rw [List.mem_singleton.1 hkey]
      exact hnamed f hf
    exact hkeys key (hname f hf key hkey) (hname g hg key hkey')

/-- What keeps the values of different fields apart when they are decoded in a case: numbers, constants and
output keys of their own, and no key of one field that is tried for another. -/
structure Apart (choice : DecodeCase) (m : MessagePlan) : Prop where
  numbers : (m.fields.map FieldPlan.number).Nodup
  stems : (m.fields.map fun f => m.stemOf f.number).Nodup
  exposed : m.Exposed choice
  keys : ∀ f ∈ m.fields, ∀ g ∈ m.fields, f ≠ g → ∀ key ∈ f.lookupKeys, key ∉ g.outputKeys choice
  unknown : ∀ f ∈ m.fields, unknownKey ∉ f.lookupKeys

/-- No key that is tried for one field is an output of another. -/
theorem WellFormed.keys_outputs {plans : List MessagePlan} {m : MessagePlan} (hm : m.WellFormed plans)
    (choice : DecodeCase) : ∀ f ∈ m.fields, ∀ g ∈ m.fields, f ≠ g → ∀ key ∈ f.lookupKeys, key ∉ g.outputKeys choice := by
  intro f hf g hg hne key hkey hkey'
  have : Std.Symm fun f g : FieldPlan => ∀ key ∈ f.lookupKeys, key ∉ g.lookupKeys :=
    ⟨fun _ _ hkeys key hkey hkey' => hkeys key hkey' hkey⟩
  have hlookup := FieldPlan.mem_lookupKeys_of_mem_outputKeys hkey' (FieldPlan.mem_distinctKeys.1 hkey).2
  exact hm.keys.forall hf hg hne key hkey hlookup

theorem WellFormed.apart {plans : List MessagePlan} {m : MessagePlan} (hm : m.WellFormed plans) {choice : DecodeCase}
    (hexposed : m.Exposed choice) : m.Apart choice :=
  ⟨hm.numbers, hm.stems, hexposed, hm.keys_outputs choice, hm.unknown⟩

/-- What keeps the fields of a plan apart while bytes are decoded in a case: numbers, constants and output
keys of their own, none of them the key of kept records. -/
structure Separable (choice : DecodeCase) (m : MessagePlan) : Prop where
  numbers : (m.fields.map FieldPlan.number).Nodup
  stems : (m.fields.map fun f => m.stemOf f.number).Nodup
  outputs : m.fields.Pairwise fun f g => ∀ key ∈ f.outputKeys choice, key ∉ g.outputKeys choice
  unknown : ∀ f ∈ m.fields, unknownKey ∉ f.outputKeys choice

theorem Apart.separable {choice : DecodeCase} {m : MessagePlan} (h : m.Apart choice) : m.Separable choice where
  numbers := h.numbers
  stems := h.stems
  outputs := h.exposed.outputs
  unknown f hf hkey := h.unknown f hf (FieldPlan.mem_lookupKeys_of_mem_outputKeys hkey (by decide))

theorem Separable.eq_of_mem {choice : DecodeCase} {m : MessagePlan} (h : m.Separable choice) {f g : FieldPlan}
    (hf : f ∈ m.fields) (hg : g ∈ m.fields) {key : String} (hkey : key ∈ f.outputKeys choice)
    (hkey' : key ∈ g.outputKeys choice) : f = g := by
  have : Std.Symm fun f g : FieldPlan => ∀ key ∈ f.outputKeys choice, key ∉ g.outputKeys choice :=
    ⟨fun _ _ houtputs key hkey hkey' => houtputs key hkey' hkey⟩
  by_contra hne
  exact h.outputs.forall hf hg hne key hkey hkey'

/-- Every message that a field holds has a plan. -/
def Linked (plans : List MessagePlan) (m : MessagePlan) : Prop :=
  ∀ f ∈ m.fields, f.kind = .message → ∃ p ∈ plans, f.child = some p.fullName

/-! ### Making a plan ready -/

/-- With stems of their own, fields share no constants. -/
theorem withStem_stemOf {m : MessagePlan} (hstems : (m.fields.map fun f => m.stemOf f.number).Nodup)
    {f : FieldPlan} (hf : f ∈ m.fields) : m.withStem (m.stemOf f.number) = [f] := by
  have hnodup : (m.fields.filter fun g => m.stemOf g.number == m.stemOf f.number).Nodup :=
    (List.Nodup.of_map _ hstems).filter _
  have hperm : (m.fields.filter fun g => m.stemOf g.number == m.stemOf f.number).Perm [f] := by
    rw [List.perm_ext_iff_of_nodup hnodup (List.nodup_singleton f)]
    intro g
    rw [List.mem_filter, beq_iff_eq, List.mem_singleton]
    constructor
    · rintro ⟨hg, hstem⟩
      exact List.inj_on_of_nodup_map hstems hg hf hstem
    · rintro rfl
      exact ⟨hf, rfl⟩
  rw [withStem, List.perm_singleton.1 hperm, List.reverse_singleton]

end MessagePlan

namespace Codecs

theorem fieldType_of_holds {plans : List MessagePlan} {f : FieldPlan} {type : FieldType} (h : f.Holds plans type) :
    fieldType [f] f = .ok type := by
  cases h with
  | scalar hkind htype => rw [fieldType, hkind]; dsimp only; rw [htype]; rfl
  | enum hkind _ htable => rw [fieldType, hkind]; dsimp only; rw [List.findSome?_cons, htable]
  | message hkind _ hchild => rw [fieldType, hkind, hchild]

theorem holds_unique {plans : List MessagePlan} {f : FieldPlan} {type type' : FieldType} (h : f.Holds plans type)
    (h' : f.Holds plans type') : type = type' :=
  Except.ok.inj ((fieldType_of_holds h).symm.trans (fieldType_of_holds h'))

private theorem fieldOf_eq {settings : Settings} {plans : List MessagePlan} {m : MessagePlan} (hm : m.WellFormed plans)
    {f : FieldPlan} (hf : f ∈ m.fields) {type : FieldType} (h : f.Holds plans type) :
    fieldOf settings m f = .ok (f.ready settings.decodeCase type) := by
  rw [fieldOf, MessagePlan.withStem_stemOf hm.stems hf, fieldType_of_holds h]
  rfl

def Ready (choice : DecodeCase) (plans : List MessagePlan) (f : FieldPlan) (g : Field) : Prop :=
  ∃ type, f.Holds plans type ∧ g = f.ready choice type

/-- A well-formed plan is made ready field by field. -/
theorem exists_codecOf (settings : Settings) {plans : List MessagePlan} {m : MessagePlan} (hm : m.WellFormed plans) :
    ∃ c, codecOf settings m = .ok c ∧ c.fullName = m.fullName ∧
      List.Forall₂ (Ready settings.decodeCase plans) m.fields c.fields := by
  obtain ⟨fields, hfields⟩ : ∃ fields, List.Forall₂ (fun f g => fieldOf settings m f = .ok g ∧
      Ready settings.decodeCase plans f g) m.fields fields := by
    refine exists_forall₂ fun f hf => ?_
    obtain ⟨type, htype⟩ := (hm.fields f hf).holds
    exact ⟨_, fieldOf_eq hm hf htype, type, htype, rfl⟩
  refine ⟨⟨m.fullName, m.symbol, fields⟩, ?_, rfl, hfields.imp fun _ _ h => h.2⟩
  rw [codecOf, mapM_eq_ok.2 (hfields.imp fun _ _ h => h.1), ok_bind]
  rfl

/-- A plan whose fields have stems of their own is made ready field by field, each field with its own tables. -/
theorem forall₂_own {settings : Settings} {m : MessagePlan}
    (hstems : (m.fields.map fun f => m.stemOf f.number).Nodup) {c : Codec} (hc : codecOf settings m = .ok c) :
    List.Forall₂ (fun f g => ∃ type, fieldType [f] f = .ok type ∧ g = FieldPlan.ready settings.decodeCase f type)
      m.fields c.fields := by
  obtain ⟨fields, hfields, heq⟩ := bind_eq_ok.1 hc
  obtain rfl := Except.ok.inj heq
  have hmem := (List.forall₂_and_left m.fields fields).2 ⟨fun f hf => hf, mapM_eq_ok.1 hfields⟩
  refine hmem.imp fun f g ⟨hf, hg⟩ => ?_
  rw [fieldOf, MessagePlan.withStem_stemOf hstems hf] at hg
  obtain ⟨type, htype, heq⟩ := bind_eq_ok.1 hg
  exact ⟨type, htype, (Except.ok.inj heq).symm⟩

theorem forall₂_ready {settings : Settings} {m : MessagePlan}
    (hstems : (m.fields.map fun f => m.stemOf f.number).Nodup) {c : Codec} (hc : codecOf settings m = .ok c) :
    List.Forall₂ (fun f g => ∃ type, g = FieldPlan.ready settings.decodeCase f type) m.fields c.fields :=
  (forall₂_own hstems hc).imp fun _ _ ⟨type, _, hg⟩ => ⟨type, hg⟩

theorem fullName_of_codecOf {settings : Settings} {m : MessagePlan} {c : Codec} (h : codecOf settings m = .ok c) :
    c.fullName = m.fullName := by
  obtain ⟨fields, -, heq⟩ := bind_eq_ok.1 h
  rw [← Except.ok.inj heq]

theorem ofPlans_eq_ok {settings : Settings} {plans : List MessagePlan} {cs : Codecs} :
    ofPlans settings plans = .ok cs ↔
      cs.fillDefaults = settings.fillDefaults ∧ List.Forall₂ (fun p c => codecOf settings p = .ok c) plans cs.codecs := by
  rw [ofPlans, bind_eq_ok]
  constructor
  · intro ⟨codecs, hcodecs, heq⟩
    obtain rfl := Except.ok.inj heq
    exact ⟨rfl, mapM_eq_ok.1 hcodecs⟩
  · intro ⟨hfill, hcodecs⟩
    refine ⟨cs.codecs, mapM_eq_ok.2 hcodecs, ?_⟩
    rw [← hfill]
    rfl

theorem exists_codec? {settings : Settings} {plans : List MessagePlan} {cs : Codecs}
    (hcs : ofPlans settings plans = .ok cs) {p : MessagePlan} (hp : p ∈ plans) :
    ∃ inner, cs.codec? p.fullName = some inner := by
  obtain ⟨c, hc, hcodec⟩ := exists_of_forall₂ (ofPlans_eq_ok.1 hcs).2.flip hp
  rw [codec?, ← Option.isSome_iff_exists, List.find?_isSome]
  exact ⟨c, hc, by rw [fullName_of_codecOf hcodec, beq_self_eq_true]⟩

theorem exists_plan {settings : Settings} {plans : List MessagePlan} {cs : Codecs}
    (hcs : ofPlans settings plans = .ok cs) {name : String} {inner : Codec} (h : cs.codec? name = some inner) :
    ∃ p ∈ plans, codecOf settings p = .ok inner :=
  exists_of_forall₂ (ofPlans_eq_ok.1 hcs).2 (List.mem_of_find?_eq_some h)

/-- Only a field of the kind of messages holds one. -/
theorem fieldType_eq_message_iff {sharing : List FieldPlan} {f : FieldPlan} {name : String} :
    fieldType sharing f = .ok (.message name) ↔ f.kind = .message ∧ f.child = some name := by
  constructor
  · intro h
    rw [fieldType] at h
    split at h
    · rename_i hkind
      split at h
      · rename_i child hchild
        rw [FieldType.message.inj (Except.ok.inj h)] at hchild
        exact ⟨hkind, hchild⟩
      · cases h
    · split at h
      · cases h
      · cases h
    · obtain ⟨scalar, -, heq⟩ := bind_eq_ok.1 h
      cases heq
  · intro ⟨hkind, hchild⟩
    rw [fieldType, hkind]
    dsimp only
    rw [hchild]

theorem linked_of_codecOf {settings : Settings} {plans : List MessagePlan} {cs : Codecs}
    (hcs : ofPlans settings plans = .ok cs) {m : MessagePlan} (hm : m.Linked plans) {c : Codec}
    (hc : codecOf settings m = .ok c) : c.Linked cs := by
  intro g hg name htype
  obtain ⟨fields, hfields, heq⟩ := bind_eq_ok.1 hc
  obtain rfl := Except.ok.inj heq
  obtain ⟨f, hf, hfield⟩ := exists_of_forall₂ (mapM_eq_ok.1 hfields) hg
  obtain ⟨type, hfieldType, heq⟩ := bind_eq_ok.1 hfield
  rw [← Except.ok.inj heq] at htype
  obtain rfl : type = .message name := htype
  obtain ⟨hkind, hchild⟩ := fieldType_eq_message_iff.1 hfieldType
  obtain ⟨p, hp, hchild'⟩ := hm f hf hkind
  rw [Option.some.inj (hchild.symm.trans hchild')]
  exact exists_codec? hcs hp

/-! ### Promises kept -/

theorem scalarOf_name (type : ScalarType) : FieldPlan.scalarOf (some type.name) = .ok type := by
  cases type <;> exact eq_ok_of_toOption (by decide)

theorem isPackable_of_scalarOf {name : Option String} {type : ScalarType} (h : FieldPlan.scalarOf name = .ok type) :
    FieldPlan.packable .scalar name = type.isPackable := by
  rw [FieldPlan.scalarOf] at h
  split at h
  · rename_i found hfound
    obtain rfl := Except.ok.inj h
    obtain ⟨s, rfl, hs⟩ := Option.bind_eq_some_iff.1 hfound
    have hname := List.find?_some hs
    rw [beq_iff_eq] at hname
    subst hname
    cases found <;> decide
  · simp at h

theorem exists_first_output {choice : DecodeCase} {f : FieldPlan} (h : (f.outputKeys choice).head? ≠ some "") :
    ∃ first rest, f.outputKeys choice = first :: rest ∧ first ∈ f.lookupKeys := by
  cases houtputs : f.outputKeys choice with
  | nil => exact absurd houtputs (f.outputKeys_ne_nil choice)
  | cons first rest =>
    refine ⟨first, rest, rfl, FieldPlan.mem_lookupKeys_of_mem_outputKeys (houtputs ▸ List.mem_cons_self) ?_⟩
    rintro rfl
    exact h (by rw [houtputs]; rfl)

/-- Fields that are made ready from one field of a plan have its number, so they are one. -/
theorem eq_of_ready {choice : DecodeCase} {c : Codec} (hnumbers : (c.fields.map Field.number).Nodup) {f : FieldPlan}
    {type type' : FieldType} (hmem : f.ready choice type ∈ c.fields) (hmem' : f.ready choice type' ∈ c.fields) :
    f.ready choice type = f.ready choice type' :=
  List.inj_on_of_nodup_map hnumbers hmem hmem' rfl

theorem numbers_of_ready {choice : DecodeCase} {m : MessagePlan} (hnumbers : (m.fields.map FieldPlan.number).Nodup)
    {c : Codec} (h : List.Forall₂ (fun f g => ∃ type, g = FieldPlan.ready choice f type) m.fields c.fields) :
    (c.fields.map Field.number).Nodup := by
  have hsame : m.fields.map FieldPlan.number = c.fields.map Field.number := by
    rw [← List.forall₂_eq_eq_eq, List.forall₂_map_left_iff, List.forall₂_map_right_iff]
    exact h.imp fun f g ⟨_, hg⟩ => by rw [hg]; rfl
  exact hsame ▸ hnumbers

/-- Fields that are told apart in a plan are told apart when it is made ready. -/
theorem placed_of_separable {choice : DecodeCase} {m : MessagePlan} (hm : m.Separable choice) {c : Codec}
    (h : List.Forall₂ (fun f g => ∃ type, g = FieldPlan.ready choice f type) m.fields c.fields) : c.Placed := by
  have hnodup := numbers_of_ready hm.numbers h
  refine ⟨⟨hnodup, ?_, ?_⟩, ?_, ?_⟩
  · intro g hg
    obtain ⟨f, hf, _, rfl⟩ := exists_of_forall₂ h hg
    exact f.outputKeys_nodup choice
  · intro g hg g' hg' key hkey hkey'
    obtain ⟨f, hf, _, rfl⟩ := exists_of_forall₂ h hg
    obtain ⟨f', hf', _, rfl⟩ := exists_of_forall₂ h hg'
    rw [FieldPlan.ready_outputs] at hkey hkey'
    obtain rfl := hm.eq_of_mem hf hf' hkey hkey'
    exact eq_of_ready hnodup hg hg'
  · intro g hg
    obtain ⟨f, hf, _, rfl⟩ := exists_of_forall₂ h hg
    exact f.outputKeys_ne_nil choice
  · intro g hg
    obtain ⟨f, hf, _, rfl⟩ := exists_of_forall₂ h hg
    exact hm.unknown f hf

theorem keys_of_ready {choice : DecodeCase} {m : MessagePlan}
    (hkeys : ∀ f ∈ m.fields, ∀ g ∈ m.fields, f ≠ g → ∀ key ∈ f.lookupKeys, key ∉ g.outputKeys choice) {c : Codec}
    (hnumbers : (c.fields.map Field.number).Nodup)
    (h : List.Forall₂ (fun f g => ∃ type, g = FieldPlan.ready choice f type) m.fields c.fields) :
    ∀ f ∈ c.fields, ∀ g ∈ c.fields, ∀ key ∈ f.keys, key ∈ g.outputs → f = g := by
  intro g hg g' hg' key hkey hkey'
  obtain ⟨f, hf, _, rfl⟩ := exists_of_forall₂ h hg
  obtain ⟨f', hf', _, rfl⟩ := exists_of_forall₂ h hg'
  rw [FieldPlan.ready_keys] at hkey
  rw [FieldPlan.ready_outputs] at hkey'
  by_cases heq : f = f'
  · subst heq
    exact eq_of_ready hnumbers hg hg'
  · exact absurd hkey' (hkeys f hf f' hf' heq key hkey)

/-- Fields that are kept apart in a plan are kept apart when it is made ready. -/
theorem unmixed_of_apart {choice : DecodeCase} {m : MessagePlan} (hm : m.Apart choice) {c : Codec}
    (h : List.Forall₂ (fun f g => ∃ type, g = FieldPlan.ready choice f type) m.fields c.fields) : c.Unmixed := by
  have hplaced := placed_of_separable hm.separable h
  refine ⟨hplaced.toSeparate, keys_of_ready hm.keys hplaced.numbers h, ?_, hplaced.unknown_outputs, ?_⟩
  · intro g hg
    obtain ⟨f, hf, _, rfl⟩ := exists_of_forall₂ h hg
    rw [FieldPlan.ready_keys, FieldPlan.ready_outputs]
    exact exists_first_output (hm.exposed.first f hf)
  · intro g hg hkey
    obtain ⟨f, hf, _, rfl⟩ := exists_of_forall₂ h hg
    rw [FieldPlan.ready_keys] at hkey
    exact hm.unknown f hf hkey

theorem ready_steady {cs : Codecs} {plans : List MessagePlan}
    (hplans : ∀ p ∈ plans, ∃ inner, cs.codec? p.fullName = some inner) {choice : DecodeCase} {f : FieldPlan}
    (hf : f.WellFormed plans) {g : Field} (h : Ready choice plans f g) : g.Steady cs := by
  obtain ⟨type, hholds, rfl⟩ := h
  refine ⟨fun element htype => ?_, fun name htype => ?_, fun hrepeated hpresence element htype => ?_⟩
  · obtain rfl : type = .element element := htype
    cases hholds with
    | scalar => trivial
    | enum _ he _ => exact EnumTable.ofEnum_sound he
  · obtain rfl : type = .message name := htype
    cases hholds with
    | message _ hp _ => exact hplans _ hp
  · obtain rfl : type = .element element := htype
    exact hf.default hrepeated hpresence element hholds

private theorem ready_wellFormed {cs : Codecs} {plans : List MessagePlan}
    (hplans : ∀ p ∈ plans, ∃ inner, cs.codec? p.fullName = some inner) {choice : DecodeCase} {f : FieldPlan}
    (hf : f.WellFormed plans) (hfirst : (f.outputKeys choice).head? ≠ some "") {g : Field}
    (h : Ready choice plans f g) : g.WellFormed cs := by
  obtain ⟨hsound, hchild, hdefault⟩ := ready_steady hplans hf h
  obtain ⟨type, hholds, rfl⟩ := h
  refine ⟨hf.number_pos, hf.number_lt, fun hpacked => ?_, hsound, hchild, hdefault, f.outputKeys_nodup choice, ?_⟩
  · obtain ⟨hrepeated, hpackable⟩ := hf.packed hpacked
    rw [FieldPlan.isPackable] at hpackable
    refine ⟨hrepeated, ?_⟩
    cases hholds with
    | scalar hkind htype =>
      rw [hkind, isPackable_of_scalarOf htype] at hpackable
      exact ⟨_, rfl, hpackable⟩
    | enum hkind => exact ⟨_, rfl, rfl⟩
    | message hkind =>
      rw [hkind] at hpackable
      simp [FieldPlan.packable] at hpackable
  · rw [FieldPlan.ready_keys, FieldPlan.ready_outputs]
    exact exists_first_output hfirst

/-- A plan whose decoded values can be looked up is made ready as a well-formed message. -/
theorem codecOf_wellFormed {cs : Codecs} {plans : List MessagePlan}
    (hplans : ∀ p ∈ plans, ∃ inner, cs.codec? p.fullName = some inner) {choice : DecodeCase} {m : MessagePlan}
    (hm : m.WellFormed plans) (hexposed : m.Exposed choice) {c : Codec}
    (h : List.Forall₂ (Ready choice plans) m.fields c.fields) : c.WellFormed cs := by
  obtain ⟨⟨hnumbers, _, houtputs⟩, hkeys, _, hunknown, hunknown'⟩ :=
    unmixed_of_apart (hm.apart hexposed) (h.imp fun f g ⟨type, _, hg⟩ => ⟨type, hg⟩)
  refine ⟨fun g hg => ?_, hnumbers, houtputs, hkeys, hunknown, hunknown'⟩
  obtain ⟨f, hf, hready⟩ := exists_of_forall₂ h hg
  exact ready_wellFormed hplans (hm.fields f hf) (hexposed.first f hf) hready

theorem exists_ready (settings : Settings) {plans : List MessagePlan} (hplans : ∀ p ∈ plans, p.WellFormed plans) :
    ∃ codecs, ofPlans settings plans = .ok ⟨codecs, settings.fillDefaults⟩ ∧
      List.Forall₂ (fun p c => List.Forall₂ (Ready settings.decodeCase plans) p.fields c.fields) plans codecs := by
  obtain ⟨codecs, hcodecs⟩ : ∃ codecs, List.Forall₂ (fun p c => codecOf settings p = .ok c ∧ c.fullName = p.fullName ∧
      List.Forall₂ (Ready settings.decodeCase plans) p.fields c.fields) plans codecs :=
    exists_forall₂ fun p hp => exists_codecOf settings (hplans p hp)
  exact ⟨codecs, ofPlans_eq_ok.2 ⟨rfl, hcodecs.imp fun _ _ h => h.1⟩, hcodecs.imp fun _ _ h => h.2.2⟩

/-- Well-formed plans are made ready as a closed set of messages. -/
theorem exists_closed {settings : Settings} {plans : List MessagePlan} (hplans : ∀ p ∈ plans, p.WellFormed plans)
    (hexposed : ∀ p ∈ plans, p.Exposed settings.decodeCase) :
    ∃ cs, ofPlans settings plans = .ok cs ∧ cs.fillDefaults = settings.fillDefaults ∧ cs.Closed ∧
      ∀ p ∈ plans, ∃ inner, cs.codec? p.fullName = some inner := by
  obtain ⟨codecs, hcs, hready⟩ := exists_ready settings hplans
  refine ⟨_, hcs, rfl, fun name c hc => ?_, fun p hp => exists_codec? hcs hp⟩
  obtain ⟨p, hp, hfields⟩ := exists_of_forall₂ hready (List.mem_of_find?_eq_some hc)
  exact codecOf_wellFormed (fun p hp => exists_codec? hcs hp) (hplans p hp) (hexposed p hp) hfields

end Codecs

/-! ### A sample

A message that holds messages of its own kind. -/

namespace Sample

def mood : Schema.Enum :=
  { name := "Mood", fullName := "forum.Mood", values := [("CALM", 0), ("ANGRY", 3)] }

def post : MessagePlan where
  name := "Post"
  fullName := "forum.Post"
  symbol := "Post"
  fields := [
    { name := "id", number := 1, kind := .scalar, scalar := some ScalarType.sint64.name, default := .text "0" },
    { name := "tags", number := 2, kind := .scalar, scalar := some ScalarType.string.name, repeated := true },
    { name := "scores", number := 3, kind := .scalar, scalar := some ScalarType.int32.name, repeated := true,
      packed := true },
    { name := "mood", number := 4, kind := .enum, enum := some (EnumTable.ofEnum mood), presence := true },
    { name := "replies", number := 16, kind := .message, child := some "forum.Post", repeated := true }]

private theorem mood_wellFormed : mood.WellFormed where
  names := by decide
  distinct := by decide
  range := by
    simp [mood, IsInt32]

theorem post_wellFormed : post.WellFormed [post] where
  fields := by
    intro f hf
    simp only [post, List.mem_cons, List.not_mem_nil, or_false] at hf
    rcases hf with rfl | rfl | rfl | rfl | rfl
    · refine ⟨by decide, by decide, by simp, ⟨_, .scalar rfl (Codecs.scalarOf_name _)⟩, fun _ _ type h => ?_⟩
      cases Codecs.holds_unique h (.scalar rfl (Codecs.scalarOf_name .sint64))
      rfl
    · exact ⟨by decide, by decide, by simp, ⟨_, .scalar rfl (Codecs.scalarOf_name _)⟩, by simp⟩
    · exact ⟨by decide, by decide, by decide, ⟨_, .scalar rfl (Codecs.scalarOf_name _)⟩, by simp⟩
    · exact ⟨by decide, by decide, by simp, ⟨_, .enum rfl mood_wellFormed rfl⟩, by simp⟩
    · exact ⟨by decide, by decide, by simp, ⟨_, .message rfl List.mem_cons_self rfl⟩, by simp⟩
  numbers := by decide
  stems := by decide
  keys := by decide
  unknown := by decide

theorem post_named : post.Named := by
  intro f hf
  simp only [post, List.mem_cons, List.not_mem_nil, or_false] at hf
  rcases hf with rfl | rfl | rfl | rfl | rfl <;> decide

theorem post_exposed : post.Exposed .snake := post_wellFormed.exposed_snake post_named

def postTypes : List FieldType :=
  [.element (.scalar .sint64), .element (.scalar .string), .element (.scalar .int32),
    .element (.enum (EnumTable.ofEnum mood).byName (EnumTable.ofEnum mood).byNumber
      (EnumTable.ofEnum mood).defaultName),
    .message "forum.Post"]

def postCodec : Codec := ⟨"forum.Post", "Post", List.zipWith (FieldPlan.ready .snake) post.fields postTypes⟩

theorem codecOf_post : Codecs.codecOf {} post = .ok postCodec := rfl

theorem ofPlans_post : Codecs.ofPlans {} [post] = .ok ⟨[postCodec], true⟩ := rfl

theorem eq_postCodec {name : String} {inner : Codec} (h : Codecs.codec? ⟨[postCodec], true⟩ name = some inner) :
    inner = postCodec :=
  List.mem_singleton.1 (List.mem_of_find?_eq_some h)

/-- Replies are the only messages in a post. -/
theorem keys_of_message {f : Field} (hf : f ∈ postCodec.fields) {name : String} (htype : f.type = .message name) :
    f.keys = ["replies"] ∧ f.repeated = true := by
  simp only [postCodec, post, postTypes, List.zipWith_cons_cons, List.zipWith_nil_left, List.mem_cons,
    List.not_mem_nil, or_false] at hf
  rcases hf with rfl | rfl | rfl | rfl | rfl
  · simp [FieldPlan.ready] at htype
  · simp [FieldPlan.ready] at htype
  · simp [FieldPlan.ready] at htype
  · simp [FieldPlan.ready] at htype
  · exact ⟨by decide, rfl⟩

end Sample

end MessageCodec
