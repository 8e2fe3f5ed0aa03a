import MessageCodec.Proofs.Reading

/-!
# Values under the keys of other fields

A decoded value is put under one or two keys and looked up under up to three. As long as no key that is
tried for one field is one that another is decoded to, a decoded message answers for every field with what
the records of that field hold, and with nothing where there was none; so only fields that were on the wire
are written again. A single key in common is enough to lose this.
-/

namespace MessageCodec

open Codec Wire

namespace Codecs

/-! ### Fields that are kept apart -/

theorem isNull_of_gathered {f : Field} {hits : List (List Value)} (hnull : ∀ vs ∈ hits, ∀ u ∈ vs, u.isNull = false)
    {w : Value} (h : f.gathered hits = some w) : w.isNull = false := by
  rw [Field.gathered] at h
  split at h
  · split at h
    · cases h
    · rw [← Option.some.inj h]
      rfl
  · obtain ⟨vs, hvs, hmem⟩ := List.mem_flatten.1 (List.mem_of_getLast? h)
    exact hnull vs hvs w hmem

/-- A record of a field that is not repeated has a value. -/
theorem valuesOf_ne_nil {cs : Codecs} {f : Field} (hsingular : f.repeated = false) {r : Slice} {arm : Arm}
    (harm : f.arm? r.number r.form.code = some arm) {vs : List Value} (hvs : cs.valuesOf arm r.payload = .ok vs) :
    vs ≠ [] := by
  have hform : r.form = arm.form := WireType.code_injective (Field.arm?_form harm)
  have hpayload := hform ▸ r.payload_form
  cases arm with
  | packed type =>
    rw [Field.repeated_of_arm? harm] at hsingular
    cases hsingular
  | single type =>
    obtain ⟨v, hv⟩ := type.reader_frames.whole hpayload
    rw [valuesOf, hv] at hvs
    rw [← Except.ok.inj hvs]
    simp
  | message name =>
    obtain ⟨block, hblock⟩ := readDelimited_frames.whole hpayload
    rw [valuesOf] at hvs
    obtain ⟨inner, -, hrest⟩ := bind_eq_ok.1 hvs
    rw [hblock] at hrest
    obtain ⟨v, -, hlist⟩ := bind_eq_ok.1 hrest
    rw [← Except.ok.inj hlist]
    simp

/-- A field holds something just where a record of it was read. -/
theorem isSome_gathered {cs : Codecs} {f : Field} {rs : List Slice} (hvalues : ∀ r ∈ rs, ∀ arm,
      f.arm? r.number r.form.code = some arm → ∃ vs, cs.valuesOf arm r.payload = .ok vs) :
    (f.gathered (cs.hits f rs)).isSome = true ↔ ∃ r ∈ rs, (f.arm? r.number r.form.code).isSome = true := by
  have hhits : (∃ vs, vs ∈ cs.hits f rs) ↔ ∃ r ∈ rs, (f.arm? r.number r.form.code).isSome = true := by
    simp only [hits, List.mem_filterMap, Option.map_eq_some_iff, Option.isSome_iff_exists]
    constructor
    · rintro ⟨_, r, hr, arm, harm, -⟩
      exact ⟨r, hr, arm, harm⟩
    · rintro ⟨r, hr, arm, harm⟩
      exact ⟨_, r, hr, arm, harm, rfl⟩
  rw [← hhits, Field.gathered]
  cases hrepeated : f.repeated with
  | true =>
    rw [if_pos rfl]
    cases cs.hits f rs with
    | nil => simp
    | cons vs hits => simp
  | false =>
    rw [if_neg (by simp), List.getLast?_isSome, ne_eq, List.flatten_eq_nil_iff]
    push Not
    constructor
    · rintro ⟨vs, hvs, -⟩
      exact ⟨vs, hvs⟩
    · rintro ⟨vs, hvs⟩
      refine ⟨vs, hvs, ?_⟩
      obtain ⟨r, hr, hhit⟩ := List.mem_filterMap.1 hvs
      obtain ⟨arm, harm, rfl⟩ := Option.map_eq_some_iff.1 hhit
      obtain ⟨vs, hvalues⟩ := hvalues r hr arm harm
      rw [values_of_ok hvalues]
      exact valuesOf_ne_nil hrepeated harm hvalues

/-- What a message is decoded to without defaults, for fields that are kept apart. -/
theorem field?_of_decode {cs : Codecs} (hfill : cs.fillDefaults = false) {c : Codec} (hc : c.Unmixed) {w : List UInt8}
    {rs : List Slice} (htiles : Tiles w rs) {d : Value} (hd : cs.decode c w = .ok d) :
    (∀ f ∈ c.fields, d.field? f.keys = f.gathered (cs.hits f rs) ∧
      ((d.field? f.keys).isSome = true ↔ ∃ r ∈ rs, (f.arm? r.number r.form.code).isSome = true)) ∧
    unknownOfValue d = .ok (c.kept rs) := by
  obtain ⟨entries, rfl, hdescribes⟩ := describes_of_decode hc.placed htiles hd
  refine ⟨fun f hf => ?_, unknownOfValue_of_describes hc.placed hdescribes⟩
  have hentry : f.entry cs.fillDefaults (cs.hits f rs) = f.gathered (cs.hits f rs) := by
    rw [Field.entry, hfill, if_neg (by simp), Option.or_none]
  have hfield := field?_of_unmixed hc hdescribes hf fun w hw =>
    isNull_of_gathered (fun vs hvs u hu => isNull_of_yields (yields_of_mem_hits htiles hvs hu)) (hentry ▸ hw)
  rw [hfield, hentry]
  refine ⟨rfl, isSome_gathered fun r hr arm harm => ?_⟩
  exact readable_of_decode htiles hd r hr f arm (hc.arm?_of_mem hf harm)

/-! ### Keys in common -/

private theorem exists_payload (type : ElementType) (number : Nat) : ∃ p, IsPayload type.wireType number p := by
  have hvarint : IsPayload .varint number [0] := .varint (.last (by decide))
  have hdelimited : IsPayload .delimited number ([0] ++ []) := .delimited (.last (by decide)) rfl
  have hfixed32 : IsPayload .fixed32 number [0, 0, 0, 0] := .fixed32 rfl
  have hfixed64 : IsPayload .fixed64 number [0, 0, 0, 0, 0, 0, 0, 0] := .fixed64 rfl
  cases type with
  | enum byName byNumber zeroName => exact ⟨_, hvarint⟩
  | scalar type =>
    cases type with
    | string | bytes => exact ⟨_, hdelimited⟩
    | fixed32 | sfixed32 | float => exact ⟨_, hfixed32⟩
    | fixed64 | sfixed64 | double => exact ⟨_, hfixed64⟩
    | _ => exact ⟨_, hvarint⟩

/-- A field that has a number and a message to hold can be on the wire. -/
theorem exists_claimed_record {cs : Codecs} {f : Field} (hpos : 1 ≤ f.number) (hlt : f.number < 0x20000000)
    (hchild : ∀ name, f.type = .message name → ∃ inner, cs.codec? name = some inner) :
    ∃ (r : Slice) (arm : Arm) (v : Value), f.arm? r.number r.form.code = some arm ∧
      cs.valuesOf arm r.payload = .ok [v] := by
  obtain ⟨n, hn⟩ := Int.eq_ofNat_of_zero_le (show 0 ≤ f.number by omega)
  cases htype : f.type with
  | element type =>
    obtain ⟨p, hp⟩ := exists_payload type n
    obtain ⟨v, hv⟩ := type.reader_frames.whole hp
    refine ⟨Slice.make (by omega) (by omega) hp, .single type, v, Field.arm?_single htype hn, ?_⟩
    show Except.ok (((type.reader p).map Prod.fst).toList) = .ok [v]
    rw [hv]
    rfl
  | message name =>
    obtain ⟨inner, hinner⟩ := hchild name htype
    have hp : IsPayload .delimited n ([0] ++ []) := .delimited (.last (by decide)) rfl
    have hempty : cs.decode inner [] = .ok (finish cs.fillDefaults inner {}) := by
      rw [decode, gather_eq_turn]
      rfl
    refine ⟨Slice.make (by omega) (by omega) hp, .message name, finish cs.fillDefaults inner {},
      Field.arm?_message htype hn, ?_⟩
    show cs.valuesOf (.message name) [0] = .ok [finish cs.fillDefaults inner {}]
    rw [valuesOf, child, hinner]
    show (do let v ← cs.decode inner []; return [v] : Except Error (List Value)) = _
    rw [hempty]
    rfl

/-- A message of one record is decoded to what the record holds. -/
theorem decode_record {cs : Codecs} (hfill : cs.fillDefaults = false) {c : Codec}
    (hnumbers : (c.fields.map Field.number).Nodup) {g : Field} (hg : g ∈ c.fields) (hnodup : g.outputs.Nodup) {r : Slice}
    {arm : Arm} (harm : g.arm? r.number r.form.code = some arm) {v : Value} (hv : cs.valuesOf arm r.payload = .ok [v]) :
    ∃ entries : Entries, cs.decode c r.bytes = .ok (.mapping entries) ∧
      ∀ key ∈ g.outputs, entries.get? key = g.gathered [[v]] := by
  have hempty : ∀ key ∈ g.outputs, ({} : Gathered).entries.get? key = g.gathered [] := by
    intro key _
    rw [Field.gathered]
    split <;> rfl
  obtain ⟨gathered, htake, hheld⟩ := take_gathered hnodup hempty [v]
  have hconsume : cs.consume c {} r = .ok gathered := by
    rw [consume, arm?_of_mem hnumbers hg harm]
    dsimp only
    rw [hv, ok_bind, htake]
  have hfold : [r].foldlM (cs.consume c) {} = .ok gathered := by
    rw [List.foldlM_cons, hconsume, ok_bind, List.foldlM_nil]
    rfl
  -- the record is taken, so that none is kept
  have hkept : gathered.unknown = [] := by
    rw [foldlM_unknown hfold, kept, List.filter_cons_of_neg (by simp [arm?_of_mem hnumbers hg harm])]
    rfl
  have htiles : Tiles r.bytes [r] := by
    have hflat := tiles_flatMap [r]
    rwa [List.flatMap_singleton] at hflat
  refine ⟨gathered.entries, ?_, hheld⟩
  rw [decode, gather_of_tiles htiles, hfold]
  show Except.ok (finish cs.fillDefaults c gathered) = _
  rw [finish, hfill, hkept]
  rfl

/-- Where a key that is tried for one field is an output of another, bytes without a record of the first are
decoded to a message that answers for it. -/
theorem exists_lent_value {cs : Codecs} (hfill : cs.fillDefaults = false) {c : Codec}
    (hnumbers : (c.fields.map Field.number).Nodup) {g : Field} (hg : g ∈ c.fields) (hnodup : g.outputs.Nodup)
    (hpos : 1 ≤ g.number) (hlt : g.number < 0x20000000) (hlinked : c.Linked cs) {keys : List String} {key : String}
    (hkey : key ∈ keys) (hout : key ∈ g.outputs) :
    ∃ w rs d, Tiles w rs ∧ cs.decodeValue c (.bytes w) = .ok d ∧ (∀ r ∈ rs, (r.number : Int) = g.number) ∧
      (d.field? keys).isSome = true := by
  obtain ⟨r, arm, v, harm, hv⟩ := exists_claimed_record hpos hlt (hlinked g hg)
  obtain ⟨entries, hdecode, hentries⟩ := decode_record hfill hnumbers hg hnodup harm hv
  have hnull : v.isNull = false :=
    isNull_of_yields (yields_of_mem_values harm (values_of_ok hv ▸ List.mem_singleton_self v))
  obtain ⟨u, hu, hnull⟩ : ∃ u, entries.get? key = some u ∧ u.isNull = false := by
    rw [hentries key hout, Field.gathered]
    split
    · exact ⟨_, rfl, rfl⟩
    · exact ⟨v, rfl, hnull⟩
  refine ⟨[r].flatMap Slice.bytes, [r], .mapping entries, tiles_flatMap [r], ?_, ?_, ?_⟩
  · rw [List.flatMap_singleton]
    exact hdecode
  · intro r' hr'
    rw [List.mem_singleton.1 hr']
    exact Field.number_of_arm? harm
  · rw [Value.field?, List.findSome?_isSome_iff]
    refine ⟨key, hkey, ?_⟩
    rw [Value.member?, hu]
    simp [hnull]

end Codecs

/-! ### Plans -/

/-- Where no key that is tried for a field is an output of another, no two fields share an output. Only an
empty output is never tried, and it can be no more than the JSON name of one field. -/
theorem MessagePlan.exposed_of_keys {choice : DecodeCase} {m : MessagePlan}
    (hjson : (m.fields.map FieldPlan.jsonKey).Nodup) (hfirst : ∀ f ∈ m.fields, (f.outputKeys choice).head? ≠ some "")
    (hkeys : ∀ f ∈ m.fields, ∀ g ∈ m.fields, f ≠ g → ∀ key ∈ f.lookupKeys, key ∉ g.outputKeys choice) :
    m.Exposed choice := by
  have hempty : ∀ f ∈ m.fields, "" ∈ f.outputKeys choice → f.jsonKey = "" := by
    intro f hf hmem
    have hfirst := hfirst f hf
    cases choice with
    | snake => exact absurd (congrArg some (List.mem_singleton.1 hmem).symm) hfirst
    | camel => exact (List.mem_singleton.1 hmem).symm
    | both =>
      rw [FieldPlan.outputKeys, FieldPlan.mem_insertNew, List.mem_singleton] at hmem
      rcases hmem with hname | hjson
      · rw [FieldPlan.outputKeys, Naming.insertNew] at hfirst
        split at hfirst
        · exact absurd (congrArg some hname.symm) hfirst
        · exact absurd (congrArg some hname.symm) hfirst
      · exact hjson.symm
  rw [List.Nodup, List.pairwise_map] at hjson
  refine ⟨hfirst, hjson.imp_of_mem fun {f g} hf hg hne key hkey hkey' => ?_⟩
  by_cases hkeyEmpty : key = ""
  · rw [hkeyEmpty] at hkey hkey'
    exact hne ((hempty f hf hkey).trans (hempty g hg hkey').symm)
  · have hfg : f ≠ g := fun heq => hne (congrArg FieldPlan.jsonKey heq)
    exact hkeys f hf g hg hfg key (FieldPlan.mem_lookupKeys_of_mem_outputKeys hkey hkeyEmpty) hkey'

namespace Codecs

/-- What a message answers with, and what is written of it again. -/
theorem answers_of_unmixed {cs : Codecs} (hfill : cs.fillDefaults = false) {c : Codec} (hc : c.Unmixed)
    {choice : DecodeCase} {m : MessagePlan}
    (hready : List.Forall₂ (fun f g => ∃ type, g = FieldPlan.ready choice f type) m.fields c.fields) {w : List UInt8}
    {d : Value} (hd : cs.decodeValue c (.bytes w) = .ok d) :
    ∃ rs, Tiles w rs ∧
      List.Forall₂ (fun f g => (∃ type, g = FieldPlan.ready choice f type) ∧
        d.field? f.lookupKeys = g.gathered (cs.hits g rs) ∧
        ((d.field? f.lookupKeys).isSome = true ↔ ∃ r ∈ rs, (g.arm? r.number r.form.code).isSome = true))
        m.fields c.fields ∧
      ∀ bytes, cs.encode c d = .ok bytes → ∃ parts, bytes = parts.flatten ++ c.kept rs ∧
        List.Forall₂ (fun g part => cs.encodeHeld g (g.gathered (cs.hits g rs)) = .ok part ∧
          ((∀ r ∈ rs, g.arm? r.number r.form.code = none) → part = [])) c.fields parts := by
  obtain ⟨rs, htiles⟩ := exists_tiles w
  obtain ⟨hfields, hkept⟩ := field?_of_decode hfill hc htiles hd
  refine ⟨rs, htiles, ?_, fun bytes hbytes => ?_⟩
  · have hmem := ((List.forall₂_and_left c.fields m.fields).2 ⟨fun g hg => hg, hready.flip⟩).flip
    refine hmem.imp fun f g ⟨hg, hready⟩ => ⟨hready, ?_⟩
    have hfield := hfields g hg
    obtain ⟨type, rfl⟩ := hready
    rwa [FieldPlan.ready_keys] at hfield
  · obtain ⟨parts, kept, hparts, hkept', rfl⟩ := encode_eq_ok.1 hbytes
    obtain rfl := Except.ok.inj (hkept.symm.trans hkept')
    refine ⟨parts, rfl, ?_⟩
    have hmem := (List.forall₂_and_left c.fields parts).2 ⟨fun g hg => hg, hparts⟩
    refine hmem.imp fun g part ⟨hg, hpart⟩ => ?_
    obtain ⟨hfield, hsome⟩ := hfields g hg
    rw [encodeField, hfield] at hpart
    refine ⟨hpart, fun habsent => ?_⟩
    have hnone : g.gathered (cs.hits g rs) = none := by
      rw [← hfield, ← Option.not_isSome_iff_eq_none, hsome]
      rintro ⟨r, hr, harm⟩
      rw [habsent r hr] at harm
      cases harm
    rw [hnone] at hpart
    exact (Except.ok.inj hpart).symm

/-- Bytes are decoded without defaults and the message is asked for a field, where fields have different numbers,
JSON names and constants, the first output of each is not empty, and none is looked up under the key of kept
records. If no key that is tried for a field is an output of another, the message answers with what the records of
the field hold, and with something just where there is one; and encoding it again writes for each field no more than
that. If such a key is an output of another field that can be on the wire, there are bytes without a record of the
first that are decoded to a message answering for it. -/
theorem decode_keeps_fields_apart {settings : Settings} (hfill : settings.fillDefaults = false)
    {plans : List MessagePlan} {cs : Codecs} (hcs : ofPlans settings plans = .ok cs) {m : MessagePlan}
    (hnumbers : (m.fields.map FieldPlan.number).Nodup) (hjson : (m.fields.map FieldPlan.jsonKey).Nodup)
    (hstems : (m.fields.map fun f => m.stemOf f.number).Nodup)
    (hfirst : ∀ f ∈ m.fields, (f.outputKeys settings.decodeCase).head? ≠ some "")
    (hunknown : ∀ f ∈ m.fields, unknownKey ∉ f.lookupKeys) {c : Codec} (hc : codecOf settings m = .ok c) :
    ((∀ f ∈ m.fields, ∀ g ∈ m.fields, f ≠ g → ∀ key ∈ f.lookupKeys, key ∉ g.outputKeys settings.decodeCase) →
      ∀ w d, cs.decodeValue c (.bytes w) = .ok d → ∃ rs, Tiles w rs ∧
        List.Forall₂ (fun f g => (∃ type, g = FieldPlan.ready settings.decodeCase f type) ∧
          d.field? f.lookupKeys = g.gathered (cs.hits g rs) ∧
          ((d.field? f.lookupKeys).isSome = true ↔ ∃ r ∈ rs, (g.arm? r.number r.form.code).isSome = true))
          m.fields c.fields ∧
        ∀ bytes, cs.encode c d = .ok bytes → ∃ parts, bytes = parts.flatten ++ c.kept rs ∧
          List.Forall₂ (fun g part => cs.encodeHeld g (g.gathered (cs.hits g rs)) = .ok part ∧
            ((∀ r ∈ rs, g.arm? r.number r.form.code = none) → part = [])) c.fields parts) ∧
    (c.Linked cs → ∀ f ∈ m.fields, ∀ g ∈ m.fields, f ≠ g → 1 ≤ g.number → g.number < 0x20000000 →
      ∀ key ∈ f.lookupKeys, key ∈ g.outputKeys settings.decodeCase →
        ∃ w rs d, Tiles w rs ∧ cs.decodeValue c (.bytes w) = .ok d ∧ (∀ r ∈ rs, (r.number : Int) ≠ f.number) ∧
          (d.field? f.lookupKeys).isSome = true) := by
  have hready := forall₂_ready hstems hc
  have hfillCodecs : cs.fillDefaults = false := by
    obtain ⟨codecs, -, heq⟩ := bind_eq_ok.1 hcs
    rw [← Except.ok.inj heq, hfill]
  refine ⟨fun hkeys w d hd => ?_, fun hlinked f hf g hg hne hpos hlt key hkey hout => ?_⟩
  · apply answers_of_unmixed hfillCodecs _ hready hd
    exact unmixed_of_apart ⟨hnumbers, hstems, MessagePlan.exposed_of_keys hjson hfirst hkeys, hkeys, hunknown⟩ hready
  · obtain ⟨_, hmem, type, rfl⟩ := exists_of_forall₂ hready.flip hg
    obtain ⟨w, rs, d, htiles, hd, hrecords, hsome⟩ := exists_lent_value hfillCodecs (numbers_of_ready hnumbers hready)
      hmem (g.outputKeys_nodup settings.decodeCase) hpos hlt hlinked hkey hout
    refine ⟨w, rs, d, htiles, hd, fun r hr heq => hne ?_, hsome⟩
    exact List.inj_on_of_nodup_map hnumbers hf hg (heq.symm.trans (hrecords r hr))

end Codecs

namespace Sample

def optionalWord (name : String) (number : Int) (jsonName : Option String) : FieldPlan :=
  { name, number, jsonName, kind := .scalar, scalar := some ScalarType.fixed32.name, presence := true, default := .int 0 }

def wordsCodec (choice : DecodeCase) (m : MessagePlan) : Codec :=
  ⟨m.fullName, m.symbol, m.fields.map fun f => f.ready choice (.element (.scalar .fixed32))⟩

def secondRecord : Slice where
  number := 2
  form := .fixed32
  tag := [21]
  payload := [5, 0, 0, 0]
  tag_varint := .last (by decide)
  tag_val := rfl
  number_pos := by decide
  payload_form := .fixed32 rfl

def member : MessagePlan where
  name := "Member"
  fullName := "forum.Member"
  symbol := "Member"
  fields := [optionalWord "first_post" 1 none, optionalWord "last_post" 2 none]

/-- Both spellings of a key are written, and absent fields stay absent. -/
def sparseSettings : Settings := { decodeCase := .both, fillDefaults := false }

private theorem decode_member : Codecs.decodeValue ⟨[wordsCodec .both member], false⟩ (wordsCodec .both member)
    (.bytes secondRecord.bytes) = .ok (.mapping [("last_post", .int 5), ("lastPost", .int 5)]) :=
  Codecs.decode_of_turn (g := ⟨[("last_post", .int 5), ("lastPost", .int 5)], []⟩) rfl

theorem decode_keeps_fields_apart_member : ∃ cs c d, Codecs.ofPlans sparseSettings [member] = .ok cs ∧
    Codecs.codecOf sparseSettings member = .ok c ∧ cs.decodeValue c (.bytes secondRecord.bytes) = .ok d ∧
    ∃ rs, Tiles secondRecord.bytes rs ∧ List.Forall₂ (fun f g => d.field? f.lookupKeys = g.gathered (cs.hits g rs))
      member.fields c.fields := by
  have hplans : Codecs.ofPlans sparseSettings [member] = .ok ⟨[wordsCodec .both member], false⟩ := rfl
  have hkeys : ∀ f ∈ member.fields, ∀ g ∈ member.fields, f ≠ g →
      ∀ key ∈ f.lookupKeys, key ∉ g.outputKeys sparseSettings.decodeCase := by
    intro f hf g hg hne
    simp only [member, List.mem_cons, List.not_mem_nil, or_false] at hf hg
    obtain rfl | rfl := hf <;> obtain rfl | rfl := hg
    · exact absurd rfl hne
    · decide
    · decide
    · exact absurd rfl hne
  have hcodec : Codecs.codecOf sparseSettings member = .ok (wordsCodec .both member) := rfl
  obtain ⟨hanswers, -⟩ := Codecs.decode_keeps_fields_apart (m := member) rfl hplans (by decide) (by decide) (by decide)
    (by decide) (by decide) hcodec
  obtain ⟨rs, htiles, hfields, -⟩ := hanswers hkeys _ _ decode_member
  exact ⟨_, _, _, hplans, rfl, decode_member, rs, htiles, hfields.imp fun _ _ h => h.2.1⟩

/-- The JSON name of the first field is the name of the second. -/
def borrower : MessagePlan where
  name := "M"
  fullName := "M"
  symbol := "M"
  fields := [optionalWord "a" 1 (some "b"), optionalWord "b" 2 (some "c")]

theorem payload_word {n : Int} (hn : IsUInt32 n) {bytes : List UInt8} (hbytes : fixed32 n = bytes) :
    (ElementType.scalar .fixed32).payload (.int n) = .ok ⟨bytes, n == 0⟩ := by
  rw [ElementType.payload, ElementType.scalarPayload, Value.toUInt32_int hn, ← hbytes]
  rfl

theorem record_small {tag : Nat} (htag : tag < 128) (payload : List UInt8) :
    record tag payload = tag.toUInt8 :: payload := by
  rw [record, varintOfInt_nonneg (by omega), Int.toNat_natCast, varintOfNat, if_pos htag]
  rfl

private theorem encodeHeld_word (cs : Codecs) {f : Field} (htype : f.type = .element (.scalar .fixed32))
    (hsingular : f.repeated = false) (hpresence : f.presence = true) (tag : Nat) (htag : f.tag = tag) (hlt : tag < 128) :
    cs.encodeHeld f (some (.int 5)) = .ok [tag.toUInt8, 5, 0, 0, 0] := by
  have hpayload : (ElementType.scalar .fixed32).payload (.int 5) = .ok ⟨[5, 0, 0, 0], false⟩ :=
    payload_word ⟨by decide, by decide⟩ rfl
  have hrecord : record f.tag [5, 0, 0, 0] = [tag.toUInt8, 5, 0, 0, 0] := by
    rw [htag, record_small hlt]
  rw [Codecs.encodeHeld, Codecs.encodeValue, htype]
  dsimp only
  rw [encodeElements, hsingular, if_neg (by simp), hpayload, ok_bind, hpresence, hrecord]
  rfl

/-- A value that was decoded for the second field alone is found for the first as well, and is written
again for both. -/
theorem shared_key_lends_value : (borrower.fields.map FieldPlan.name).Nodup ∧
    (borrower.fields.map FieldPlan.jsonKey).Nodup ∧ (borrower.fields.map FieldPlan.number).Nodup ∧
    ∃ cs c d, Codecs.ofPlans { fillDefaults := false } [borrower] = .ok cs ∧
      Codecs.codecOf { fillDefaults := false } borrower = .ok c ∧
      cs.decodeValue c (.bytes [21, 5, 0, 0, 0]) = .ok d ∧
      (∃ f g, f ∈ borrower.fields ∧ g ∈ c.fields ∧ g.number = f.number ∧ g.presence = true ∧
        (∀ rs, Tiles [21, 5, 0, 0, 0] rs → ∀ r ∈ rs, g.arm? r.number r.form.code = none) ∧
        d.field? f.lookupKeys = some (.int 5)) ∧
      cs.encode c d = .ok [13, 5, 0, 0, 0, 21, 5, 0, 0, 0] := by
  refine ⟨by decide, by decide, by decide, ⟨[wordsCodec .snake borrower], false⟩,
    wordsCodec .snake borrower, .mapping [("b", .int 5)], rfl, rfl, ?_, ?_, ?_⟩
  · exact Codecs.decode_of_turn (g := ⟨[("b", .int 5)], []⟩) rfl
  · refine ⟨_, _, List.mem_cons_self, List.mem_cons_self, rfl, rfl, fun rs hrs r hr => ?_, rfl⟩
    obtain rfl := hrs.unique (tiles_flatMap [secondRecord])
    obtain rfl := List.mem_singleton.1 hr
    rfl
  · rw [Codecs.encode_eq_ok]
    refine ⟨[[13, 5, 0, 0, 0], [21, 5, 0, 0, 0]], [], .cons ?_ (.cons ?_ .nil), rfl, rfl⟩
    · exact encodeHeld_word _ rfl rfl rfl 13 rfl (by decide)
    · exact encodeHeld_word _ rfl rfl rfl 21 rfl (by decide)

end Sample

end MessageCodec
