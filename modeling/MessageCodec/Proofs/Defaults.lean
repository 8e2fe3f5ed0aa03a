import MessageCodec.Proofs.Filling
import MessageCodec.Proofs.Planned
import MessageCodec.Proofs.Rendering
import MessageCodec.Proofs.Running

/-!
# Defaults are not written

A message is decoded with defaults and without. Where no field is looked up under a key of another, each field is
found in both messages alike, or only in the one with defaults, as its default; and a default is written as
nothing. So both messages are encoded to the same bytes, whatever was planned.
-/

namespace MessageCodec

open Codec Wire

/-! ### Encoding both -/

/-- What a message promises so that its defaults are not written: fields that stay apart on the wire, and none that
is looked up under a key of another or of kept records. Nothing but the empty key is decoded to and never
looked up. -/
structure Codec.Tidy (cs : Codecs) (c : Codec) : Prop where
  fields : ∀ f ∈ c.fields, f.Steady cs
  numbers : (c.fields.map Field.number).Nodup
  outputs_nodup : ∀ f ∈ c.fields, f.outputs.Nodup
  outputs_ne_nil : ∀ f ∈ c.fields, f.outputs ≠ []
  keys : ∀ f ∈ c.fields, ∀ g ∈ c.fields, ∀ key ∈ f.keys, key ∈ g.outputs → f = g
  looked_up : ∀ f ∈ c.fields, ∀ key ∈ f.outputs, key ≠ "" → key ∈ f.keys
  unknown_outputs : ∀ f ∈ c.fields, unknownKey ∉ f.outputs
  unknown_keys : ∀ f ∈ c.fields, unknownKey ∉ f.keys

namespace Codec.Tidy

variable {cs : Codecs} {c : Codec}

theorem own (hc : c.Tidy cs) {f : Field} (hf : f ∈ c.fields) {key : String} (hkey : key ∈ f.keys) : c.Own key := by
  intro g hg g' hg' hout hout'
  exact (hc.keys f hf g hg key hkey hout).symm.trans (hc.keys f hf g' hg' key hkey hout')

/-- The empty key is the only one that two fields can be decoded to. -/
theorem own_of_ne (hc : c.Tidy cs) {key : String} (hne : key ≠ "") : c.Own key := by
  intro f hf g hg hout hout'
  exact hc.keys f hf g hg key (hc.looked_up f hf key hout hne) hout'

theorem filling (hc : c.Tidy cs) (fill : Bool) : c.Tidy (cs.filling fill) :=
  { hc with fields := fun f hf => (hc.fields f hf).filling fill }

theorem placed (hc : c.Tidy cs) (hempty : c.Own "") : c.Placed := by
  refine ⟨⟨hc.numbers, hc.outputs_nodup, ?_⟩, hc.outputs_ne_nil, hc.unknown_outputs⟩
  intro f hf g hg key hkey hkey'
  by_cases heq : key = ""
  · subst heq
    exact hempty f hf g hg hkey hkey'
  · exact hc.own_of_ne heq f hf g hg hkey hkey'

end Codec.Tidy

namespace Codecs

variable {cs : Codecs} {bound : Nat}

/-- A field is found in both messages alike, or only with defaults, as its default. -/
theorem field?_completes {c : Codec} (hc : c.Tidy cs) {rs : List Slice} {sparse full : Entries}
    (h : cs.Completes c bound rs sparse full) {f : Field} (hf : f ∈ c.fields) :
    Option.Rel (f.Alike (f.Twin cs bound)) ((Value.mapping sparse).field? f.keys) ((Value.mapping full).field? f.keys) ∨
      (Value.mapping sparse).field? f.keys = none ∧ (Value.mapping full).field? f.keys = f.fallback := by
  -- a key that is tried for the field and is none of its outputs is the output of no field
  have hother : ∀ key ∈ f.keys, key ∉ f.outputs → sparse.get? key = none ∧ full.get? key = none := by
    intro key hkey hnot
    obtain ⟨hsame, hnone⟩ := h.other key fun g hg hout => hnot (hc.keys f hf g hg key hkey hout ▸ hout)
    have hsparse := hnone fun heq => hc.unknown_keys f hf (heq ▸ hkey)
    exact ⟨hsparse, hsame.trans hsparse⟩
  by_cases hwire : ∃ r ∈ rs, f.Takes r
  · left
    rw [Value.field?_eq_findSome?, Value.field?_eq_findSome? f.keys (.mapping full)]
    apply findSome?_rel
    intro key hkey
    rw [Value.field?_mapping_singleton, Value.field?_mapping_singleton]
    by_cases hout : key ∈ f.outputs
    · have hsome := (h.present f hf key hout (hc.own hf hkey)).2 hwire
      obtain ⟨v, hv⟩ := Option.isSome_iff_exists.1 hsome
      obtain ⟨v', hv', halike⟩ := h.held f hf key hout (hc.own hf hkey) v hv
      rw [hv, hv', Option.filter_some, Option.filter_some, isNull_of_alike halike]
      split
      · exact .some halike
      · exact .none
    · obtain ⟨hsparse, hfull⟩ := hother key hkey hout
      rw [hsparse, hfull]
      exact .none
  · have habsent : ∀ key ∈ f.keys, sparse.get? key = none := by
      intro key hkey
      by_cases hout : key ∈ f.outputs
      · rw [← Option.not_isSome_iff_eq_none, h.present f hf key hout (hc.own hf hkey)]
        exact hwire
      · exact (hother key hkey hout).1
    have hsparse : (Value.mapping sparse).field? f.keys = none := by
      rw [Option.eq_none_iff_forall_ne_some]
      intro v hv
      obtain ⟨key, hkey, hget⟩ := Value.exists_get?_of_field? hv
      rw [habsent key hkey] at hget
      cases hget
    rw [hsparse]
    cases hfull : (Value.mapping full).field? f.keys with
    | none => exact .inl .none
    | some v =>
      obtain ⟨key, hkey, hv⟩ := Value.exists_get?_of_field? hfull
      refine .inr ⟨rfl, ?_⟩
      by_cases hout : key ∈ f.outputs
      · exact (h.added f hf key hout (hc.own hf hkey) v (habsent key hkey) hv).symm
      · rw [(hother key hkey hout).2] at hv
        cases hv

private theorem eq_of_alike {f : Field} {type : ElementType} (htype : f.type = .element type) {v v' : Value}
    (h : f.Alike (f.Twin cs bound) v v') : v' = v := by
  have htwin : f.Twin cs bound = fun u u' => u' = u := by
    funext u u'
    rw [Field.Twin, htype]
  rw [htwin, Field.Alike] at h
  split at h
  · obtain ⟨us, us', rfl, rfl, hus⟩ := h
    have hsame := hus.flip
    rw [List.forall₂_eq_eq_eq] at hsame
    rw [hsame]
  · exact h

private theorem itemsOf_alike {f : Field} {T : Value → Value → Prop} {v v' : Value} (h : f.Alike T v v') :
    List.Forall₂ T (f.itemsOf v) (f.itemsOf v') := by
  rw [Field.Alike] at h
  rw [Field.itemsOf, Field.itemsOf]
  split at h
  · rename_i hrepeated
    obtain ⟨us, us', rfl, rfl, hus⟩ := h
    rw [if_pos hrepeated, if_pos hrepeated]
    exact hus
  · rename_i hsingular
    rw [if_neg hsingular, if_neg hsingular]
    exact .cons h .nil

/-- Values that are alike are written alike, if the messages among them are. -/
theorem encodeValue_alike {f : Field} (hblocks : ∀ name inner, cs.codec? name = some inner → ∀ block : List UInt8,
      block.length < bound → ∀ u u', (cs.filling false).decode inner block = .ok u →
        (cs.filling true).decode inner block = .ok u' → (cs.filling false).encode inner u = (cs.filling true).encode inner u')
    {v v' : Value} (h : f.Alike (f.Twin cs bound) v v') :
    (cs.filling false).encodeValue f v = (cs.filling true).encodeValue f v' := by
  rw [encodeValue, encodeValue]
  cases htype : f.type with
  | element type => rw [eq_of_alike htype h]
  | message name =>
    have hchild : (cs.filling true).child name = (cs.filling false).child name := rfl
    dsimp only
    rw [hchild]
    cases hinner : (cs.filling false).child name with
    | error e => rfl
    | ok inner =>
      have hfound : cs.codec? name = some inner := child_eq_ok.1 hinner
      have hitems : (f.itemsOf v).mapM ((cs.filling false).encodeItem f inner) =
          (f.itemsOf v').mapM ((cs.filling true).encodeItem f inner) := by
        apply mapM_congr_forall₂ (itemsOf_alike h)
        intro u u' htwin
        rw [encodeItem, encodeItem, isNull_of_twin htwin]
        rw [Field.Twin, htype] at htwin
        obtain ⟨inner', block, hinner', hlt, hu, hu'⟩ := htwin
        obtain rfl := Option.some.inj (hfound.symm.trans hinner')
        rw [hblocks name inner hfound block hlt u u' hu hu']
      rw [ok_bind, ok_bind, hitems]

private theorem encodeField_completes {c : Codec} (hc : c.Tidy cs)
    (hblocks : ∀ name inner, cs.codec? name = some inner → ∀ block : List UInt8, block.length < bound → ∀ u u',
      (cs.filling false).decode inner block = .ok u → (cs.filling true).decode inner block = .ok u' →
        (cs.filling false).encode inner u = (cs.filling true).encode inner u')
    {rs : List Slice} {sparse full : Entries} (h : cs.Completes c bound rs sparse full) {f : Field} (hf : f ∈ c.fields) :
    (cs.filling false).encodeField (.mapping sparse) f = (cs.filling true).encodeField (.mapping full) f := by
  rw [encodeField, encodeField]
  obtain hrel | ⟨hnone, hfallback⟩ := field?_completes hc h hf
  · obtain ⟨hnone, hnone'⟩ | ⟨v, v', hv, hv', halike⟩ := eq_none_or_of_rel hrel
    · rw [hnone, hnone']
      rfl
    · rw [hv, hv']
      exact encodeValue_alike hblocks halike
  · rw [hnone, hfallback, encodeHeld_fallback ((hc.fields f hf).filling true)]
    rfl

private theorem encode_completes {c : Codec} (hc : c.Tidy cs)
    (hblocks : ∀ name inner, cs.codec? name = some inner → ∀ block : List UInt8, block.length < bound → ∀ u u',
      (cs.filling false).decode inner block = .ok u → (cs.filling true).decode inner block = .ok u' →
        (cs.filling false).encode inner u = (cs.filling true).encode inner u')
    {rs : List Slice} {sparse full : Entries} (h : cs.Completes c bound rs sparse full) :
    (cs.filling false).encode c (.mapping sparse) = (cs.filling true).encode c (.mapping full) := by
  have hfields : c.fields.mapM ((cs.filling false).encodeField (.mapping sparse)) =
      c.fields.mapM ((cs.filling true).encodeField (.mapping full)) := by
    have hself : List.Forall₂ (fun f f' => f = f' ∧ f ∈ c.fields) c.fields c.fields :=
      List.forall₂_same.2 fun f hf => ⟨rfl, hf⟩
    apply mapM_congr_forall₂ hself
    intro f f' ⟨heq, hf⟩
    rw [← heq]
    exact encodeField_completes hc hblocks h hf
  have hunknown : unknownOfValue (.mapping sparse) = unknownOfValue (.mapping full) := by
    rw [unknownOfValue, unknownOfValue, Value.field?_mapping_singleton, Value.field?_mapping_singleton,
      (h.other unknownKey hc.unknown_outputs).1]
  rw [encode_eq, encode_eq, hfields, hunknown]

/-- Bytes are decoded without and with defaults alike, and both messages are written as the same bytes. -/
theorem decode_completes (hcs : ∀ name inner, cs.codec? name = some inner → inner.Tidy cs) {c : Codec} (hc : c.Tidy cs)
    {w : List UInt8} {rs : List Slice} (htiles : Tiles w rs) :
    Matches (fun v v' => (cs.filling false).encode c v = (cs.filling true).encode c v' ∧
        ∃ sparse full, v = .mapping sparse ∧ v' = .mapping full ∧ cs.Completes c w.length rs sparse full)
      ((cs.filling false).decode c w) ((cs.filling true).decode c w) := by
  -- a message in a field is a proper part of the bytes, so the induction is on their length
  induction hn : w.length using Nat.strongRecOn generalizing c w rs with
  | _ n ih =>
    have hblocks : ∀ name inner, cs.codec? name = some inner → ∀ block : List UInt8, block.length < n →
        Matches (fun u u' => (cs.filling false).encode inner u = (cs.filling true).encode inner u')
          ((cs.filling false).decode inner block) ((cs.filling true).decode inner block) := by
      intro name inner hinner block hlt
      obtain ⟨rs', htiles'⟩ := exists_tiles block
      exact (ih block.length hlt (hcs name inner hinner) htiles' rfl).imp fun _ _ h => h.1
    have hpaired : ∀ r ∈ rs, Paired (Field.Twin cs n) c (cs.filling false) (cs.filling true) r := by
      intro r hr
      have hle := length_payload_le htiles hr
      exact paired_twin (fun name inner hinner block hlt => (hblocks name inner hinner block hlt).imp fun _ _ _ => trivial)
        (by omega)
    have hrun := foldlM_inStep isList_of_twin hc.numbers hc.outputs_nodup inStep_nil hpaired
    rw [List.nil_append] at hrun
    rw [decode, decode, gather_of_tiles htiles, gather_of_tiles htiles]
    cases hg : rs.foldlM ((cs.filling false).consume c) {} with
    | error e =>
      rw [hg] at hrun
      generalize rs.foldlM ((cs.filling true).consume c) {} = outcome at hrun
      cases hrun
      exact .error e
    | ok g =>
      obtain ⟨g', hg', hstep⟩ := hrun.exists_ok hg
      rw [hg', ok_bind, ok_bind]
      have hcompletes := completes_of_inStep hc.unknown_outputs htiles hg hg' hstep
      refine .ok ⟨encode_completes hc ?_ hcompletes, _, _, rfl, rfl, hcompletes⟩
      intro name inner hinner block hlt u u' hu hu'
      obtain ⟨_, heq, hsame⟩ := (hblocks name inner hinner block hlt).exists_ok hu
      obtain rfl := Except.ok.inj (hu'.symm.trans heq)
      exact hsame

/-! ### Encoding whatever was decoded -/

/-- What a field is decoded to can be written, if the messages in it can. -/
theorem exists_encodeValue_of_entry {f : Field} (hf : f.Steady cs) {w : List UInt8} {rs : List Slice}
    (htiles : Tiles w rs)
    (hblocks : ∀ name inner, cs.codec? name = some inner → ∀ block : List UInt8, block.length < w.length →
      ∀ u, cs.decode inner block = .ok u → ∃ bytes, cs.encode inner u = .ok bytes)
    {v : Value} (hv : f.entry cs.fillDefaults (cs.hits f rs) = some v) : ∃ bytes, cs.encodeValue f v = .ok bytes := by
  cases htype : f.type with
  | element type =>
    have hpayload : ∀ item ∈ f.itemsOf v, ∃ p, type.payload item = .ok p := by
      intro item hitem
      have hdecoded : type.Decoded item := by
        rcases mem_itemsOf_entry hf hv hitem with ⟨vs, hvs, hmem⟩ | ⟨type', htype', rfl⟩
        · have hyields := yields_of_mem_hits htiles hvs hmem
          rw [Field.Yields, htype] at hyields
          exact hyields
        · rw [FieldType.element.inj (htype.symm.trans htype')]
          exact type'.decoded_zero
      obtain ⟨p, hp⟩ := ElementType.exists_settled (hf.sound type htype) hdecoded
      exact ⟨p, hp.payload_eq⟩
    obtain ⟨ps, hps⟩ := exists_forall₂ hpayload
    exact ⟨_, encodeValue_elements htype hps⟩
  | message name =>
    obtain ⟨inner, hinner⟩ := hf.child name htype
    have hblock : ∀ item ∈ (f.itemsOf v).filter fun item => !item.isNull, ∃ block, cs.encode inner item = .ok block := by
      intro item hitem
      rcases mem_itemsOf_entry hf hv (List.mem_of_mem_filter hitem) with ⟨vs, hvs, hmem⟩ | ⟨type, htype', -⟩
      · have hyields := yields_of_mem_hits htiles hvs hmem
        rw [Field.Yields, htype] at hyields
        obtain ⟨inner', block, hinner', hlt, hu⟩ := hyields
        obtain rfl := Option.some.inj (hinner.symm.trans hinner')
        exact hblocks name inner hinner block hlt item hu
      · rw [htype] at htype'
        cases htype'
    obtain ⟨blocks, hwritten⟩ := exists_forall₂ hblock
    exact ⟨_, (encodeValue_message htype hinner).2 ⟨blocks, hwritten, rfl⟩⟩

/-- Where each field is decoded to keys of its own, what is decoded can be encoded. -/
theorem exists_encode_of_decode (hcs : ∀ name inner, cs.codec? name = some inner → inner.Tidy cs ∧ inner.Own "")
    {c : Codec} (hc : c.Tidy cs) (hempty : c.Own "") {w : List UInt8} {v : Value} (hv : cs.decode c w = .ok v) :
    ∃ bytes, cs.encode c v = .ok bytes := by
  induction hn : w.length using Nat.strongRecOn generalizing c w v with
  | _ n ih =>
    obtain ⟨rs, htiles⟩ := exists_tiles w
    have hplaced := hc.placed hempty
    obtain ⟨entries, rfl, hdescribes⟩ := describes_of_decode hplaced htiles hv
    have hblocks : ∀ name inner, cs.codec? name = some inner → ∀ block : List UInt8, block.length < w.length →
        ∀ u, cs.decode inner block = .ok u → ∃ bytes, cs.encode inner u = .ok bytes := by
      intro name inner hinner block hlt u hu
      obtain ⟨htidy, hown⟩ := hcs name inner hinner
      exact ih block.length (hn ▸ hlt) htidy hown hu rfl
    have hfields : ∀ f ∈ c.fields, ∃ bytes, cs.encodeField (.mapping entries) f = .ok bytes := by
      intro f hf
      rw [encodeField]
      cases hheld : (Value.mapping entries).field? f.keys with
      | none => exact ⟨[], rfl⟩
      | some u =>
        obtain ⟨key, hkey, hu⟩ := Value.exists_get?_of_field? hheld
        by_cases hout : key ∈ f.outputs
        · rw [hdescribes.field f hf key hout] at hu
          exact exists_encodeValue_of_entry (hc.fields f hf) htiles hblocks hu
        · have hne : key ≠ unknownKey := fun heq => hc.unknown_keys f hf (heq ▸ hkey)
          rw [hdescribes.other key fun g hg hmem => hout (hc.keys f hf g hg key hkey hmem ▸ hmem),
            if_neg fun hand => hne hand.1] at hu
          cases hu
    obtain ⟨records, hrecords⟩ := exists_forall₂ hfields
    exact ⟨_, encode_eq_ok.2 ⟨records, _, hrecords, unknownOfValue_of_describes hplaced hdescribes, rfl⟩⟩

theorem exists_decode_encodeText (hcs : ∀ c ∈ cs.codecs, c.Tidy cs ∧ c.Own "") {c : Codec} (hc : c ∈ cs.codecs)
    (w : List UInt8) : ∃ v text, cs.decode c w = .ok v ∧ cs.encodeText c v = .ok text := by
  have hfound : ∀ name inner, cs.codec? name = some inner → inner.Tidy cs ∧ inner.Own "" :=
    fun name inner h => hcs inner (List.mem_of_find?_eq_some h)
  have hready : ∀ inner : Codec, inner.Tidy cs ∧ inner.Own "" → inner.Placed ∧ inner.Linked cs :=
    fun inner hinner => ⟨hinner.1.placed hinner.2, fun f hf => (hinner.1.fields f hf).child⟩
  obtain ⟨hplaced, hlinked⟩ := hready c (hcs c hc)
  obtain ⟨v, hv⟩ := exists_decode (fun name inner h => hready inner (hfound name inner h)) hplaced hlinked w
  obtain ⟨bytes, hbytes⟩ := exists_encode_of_decode hfound (hcs c hc).1 (hcs c hc).2 hv
  exact ⟨v, _, hv, encodeText_eq_ok.2 ⟨bytes, hbytes, rfl⟩⟩

/-! ### Plans -/

theorem tidy_of_wellFormed {plans : List MessagePlan} (hplans : ∀ p ∈ plans, ∃ inner, cs.codec? p.fullName = some inner)
    {choice : DecodeCase} {m : MessagePlan} (hm : m.WellFormed plans) {c : Codec}
    (h : List.Forall₂ (Ready choice plans) m.fields c.fields) : c.Tidy cs := by
  have hready := h.imp fun f g ⟨type, _, hg⟩ => (⟨type, hg⟩ : ∃ type, g = f.ready choice type)
  have hnumbers := numbers_of_ready hm.numbers hready
  refine ⟨?_, hnumbers, ?_, ?_, keys_of_ready (hm.keys_outputs choice) hnumbers hready, ?_, ?_, ?_⟩
  · intro g hg
    obtain ⟨f, hf, hfield⟩ := exists_of_forall₂ h hg
    exact ready_steady hplans (hm.fields f hf) hfield
  all_goals
    intro g hg
    obtain ⟨f, hf, type, rfl⟩ := exists_of_forall₂ hready hg
  · exact f.outputKeys_nodup choice
  · exact f.outputKeys_ne_nil choice
  · intro key hkey hne
    rw [FieldPlan.ready_outputs] at hkey
    rw [FieldPlan.ready_keys]
    exact FieldPlan.mem_lookupKeys_of_mem_outputKeys hkey hne
  · intro hkey
    rw [FieldPlan.ready_outputs] at hkey
    exact hm.unknown f hf (FieldPlan.mem_lookupKeys_of_mem_outputKeys hkey (by decide))
  · rw [FieldPlan.ready_keys]
    exact hm.unknown f hf

private theorem exists_tidy (settings : Settings) {plans : List MessagePlan}
    (hplans : ∀ p ∈ plans, p.WellFormed plans) :
    ∃ cs : Codecs, (∀ fill, ofPlans { settings with fillDefaults := fill } plans = .ok (cs.filling fill)) ∧
      ∀ c ∈ cs.codecs, c.Tidy cs := by
  obtain ⟨codecs, hcs, hready⟩ := exists_ready settings hplans
  refine ⟨⟨codecs, settings.fillDefaults⟩, fun fill => ?_, fun c hc => ?_⟩
  · exact ofPlans_eq_ok.2 ⟨rfl, (ofPlans_eq_ok.1 hcs).2⟩
  · obtain ⟨p, hp, hfields⟩ := exists_of_forall₂ hready hc
    exact tidy_of_wellFormed (fun p hp => exists_codec? hcs hp) (hplans p hp) hfields

theorem own_empty {settings : Settings} {m : MessagePlan} (hstems : (m.fields.map fun f => m.stemOf f.number).Nodup)
    (hne : ∀ f ∈ m.fields, "" ∉ f.outputKeys settings.decodeCase) {c : Codec} (hc : codecOf settings m = .ok c) :
    c.Own "" := by
  intro g hg _ _ hkey _
  obtain ⟨f, hf, _, rfl⟩ := exists_of_forall₂ (forall₂_ready hstems hc) hg
  exact absurd hkey (hne f hf)

/-- Defaults that are filled in are never written. Both decoders end alike on all bytes, and what they give is
encoded to the same text. Under every key that belongs to one field, and these are all but the empty one, the messages
differ by defaults of absent fields at most, and so do the messages within them. If the empty key belongs to one
field too, everything is decoded and encoded. Packages do all this where no name in them is hidden and there is room
for the levels, if the planner has been set up. -/
theorem filled_defaults_not_written {p after : Planner} {targets others : List Schema.File} {plans : List MessagePlan}
    (h : Planning.Yields (Planner.plan targets others) p plans after)
    (hfiles : ∀ file ∈ targets ++ others, Plan.ZeroBased file) (hplans : ∀ m ∈ plans, m.Distinct) (style : Settings) :
    ∃ cs : Codecs, (∀ fill, ofPlans { style with fillDefaults := fill } plans = .ok (cs.filling fill)) ∧
      (∀ space settings, Planner.Reached space settings p →
        ∀ fill, Package.Runs { style with fillDefaults := fill } plans (cs.filling fill)) ∧
      ∀ c ∈ cs.codecs, (∀ key, key ≠ "" → c.Own key) ∧ ∀ w : List UInt8,
        ((cs.filling true).decode c w >>= (cs.filling true).encodeText c) =
          ((cs.filling false).decode c w >>= (cs.filling false).encodeText c) ∧
        (∀ v, (cs.filling false).decode c w = .ok v → ∃ rs sparse full, Tiles w rs ∧ v = .mapping sparse ∧
          (cs.filling true).decode c w = .ok (.mapping full) ∧ cs.Completes c w.length rs sparse full) ∧
        ((∀ inner ∈ cs.codecs, inner.Own "") → ∃ v text, (cs.filling false).decode c w = .ok v ∧
          (cs.filling false).encodeText c v = .ok text) := by
  obtain ⟨cs, hready, htidy⟩ := exists_tidy style fun m hm => Plan.wellFormed_of_yields h hfiles hplans hm
  refine ⟨cs, hready, fun _ _ hp fill => hp.runs h (hready fill),
    fun c hc => ⟨fun key hne => (htidy c hc).own_of_ne hne, fun w => ?_⟩⟩
  obtain ⟨rs, htiles⟩ := exists_tiles w
  have hboth := decode_completes (fun name inner hfound => htidy inner (List.mem_of_find?_eq_some hfound)) (htidy c hc) htiles
  refine ⟨?_, ?_, ?_⟩
  · refine (hboth.bind_eq fun v v' ⟨hsame, _⟩ => ?_).symm
    rw [encodeText, encodeText, hsame]
  · intro v hv
    obtain ⟨v', hv', -, sparse, full, hsparse, rfl, hcompletes⟩ := hboth.exists_ok hv
    exact ⟨rs, sparse, full, htiles, hsparse, hv', hcompletes⟩
  · intro hempty
    apply exists_decode_encodeText
    · exact fun inner hmem => ⟨(htidy inner hmem).filling false, hempty inner hmem⟩
    · exact hc

end Codecs

/-! ### Samples -/

namespace Sample

open Schema Planning

theorem zeroBased_of_bare {file : File} (hdefault : ∀ place ∈ Plan.placesOf file, ∀ f ∈ place.message.fields, f.default = none)
    (hkind : ∀ place ∈ Plan.placesOf file, ∀ f ∈ place.message.fields, f.kind ≠ .enum) : Plan.ZeroBased file where
  default := by
    intro place hplace f hf _ _
    rw [hdefault place hplace f hf]
    rfl
  enums := by
    intro place hplace f hf henum
    exact absurd henum (hkind place hplace f hf)

theorem zeroBased_forum : ∀ file ∈ [forum] ++ [], Plan.ZeroBased file := by
  intro file hfile
  rw [List.append_nil, List.mem_singleton] at hfile
  rw [hfile]
  exact zeroBased_of_bare (by decide) (by decide)

private theorem distinct_forum : ∀ m ∈ forumPlans, m.Distinct := by
  simp only [forumPlans, List.forall_mem_cons, List.not_mem_nil, IsEmpty.forall_iff, implies_true, and_true]
  and_intros <;> exact ⟨by decide, by decide, by decide, by decide, by decide⟩

private theorem named_forum : ∀ m ∈ forumPlans, ∀ f ∈ m.fields, "" ∉ f.outputKeys .snake := by
  decide

theorem filled_defaults_not_written_forum : (∃ after, Yields (Planner.plan [forum] []) planner forumPlans after) ∧
    (∀ file ∈ [forum] ++ [], Plan.ZeroBased file) ∧ (∀ m ∈ forumPlans, m.Distinct) ∧
    ∃ cs : Codecs, (∀ fill, Codecs.ofPlans { fillDefaults := fill } forumPlans = .ok (cs.filling fill)) ∧
      (∀ fill, ∃ p, Package.load { fillDefaults := fill } forumPlans = .ok p ∧ p.codecs = cs.filling fill ∧ p.Follows) ∧
      ∀ c ∈ cs.codecs, ∀ w : List UInt8, ∃ text, ((cs.filling true).decode c w >>= (cs.filling true).encodeText c) = .ok text ∧
        ((cs.filling false).decode c w >>= (cs.filling false).encodeText c) = .ok text := by
  obtain ⟨after, hplans⟩ := plan_forum
  obtain ⟨cs, hready, hruns, hcodecs⟩ := Codecs.filled_defaults_not_written hplans zeroBased_forum distinct_forum {}
  have hpackage : ∀ fill, ∃ p, Package.load { fillDefaults := fill } forumPlans = .ok p ∧
      p.codecs = cs.filling fill ∧ p.Follows := by
    intro fill
    obtain ⟨p, hp⟩ := load_forum fill
    exact ⟨p, hp, hruns _ _ reached_planner fill (unshadowed_forum fill) p hp⟩
  refine ⟨⟨after, hplans⟩, zeroBased_forum, distinct_forum, cs, hready, hpackage, fun c hc w => ?_⟩
  have hempty : ∀ inner ∈ cs.codecs, inner.Own "" := by
    intro inner hinner
    obtain ⟨m, hm, hcodec⟩ := exists_of_forall₂ (Codecs.ofPlans_eq_ok.1 (hready true)).2 hinner
    exact Codecs.own_empty (distinct_forum m hm).stems (named_forum m hm) hcodec
  obtain ⟨hsame, -, hends⟩ := (hcodecs c hc).2 w
  obtain ⟨v, text, hv, htext⟩ := hends hempty
  have hplain : ((cs.filling false).decode c w >>= (cs.filling false).encodeText c) = .ok text := by
    rw [hv, ok_bind, htext]
  exact ⟨text, hsame.trans hplain, hplain⟩

/-- Names without letters: in camel case nothing is left of them. -/
def underscores : File where
  name := "underscores.proto"
  dialect := .proto3
  messages := [{ id := 0, name := "M", fullName := "M", fields := [
    { name := "_", number := 1, cardinality := .repeated, kind := .scalar, scalar := some ScalarType.fixed32.name },
    { name := "__", number := 2, kind := .scalar, scalar := some ScalarType.fixed32.name }] }]

def underscoresPlan : MessagePlan where
  name := "M"
  fullName := "M"
  symbol := "M"
  fileName := some "underscores.proto"
  fields := [
    { name := "_", number := 1, kind := .scalar, scalar := some ScalarType.fixed32.name, repeated := true,
      packed := true, jsonName := some "", default := .list [] },
    { name := "__", number := 2, kind := .scalar, scalar := some ScalarType.fixed32.name, jsonName := some "",
      default := .int 0 }]

theorem plan_underscores : ∃ after, Yields (Planner.plan [underscores] []) planner [underscoresPlan] after :=
  plan_lone rfl rfl rfl rfl (by decide) (by decide) fun journal => ⟨_, rfl⟩

theorem zeroBased_underscores : Plan.ZeroBased underscores :=
  zeroBased_of_bare (by decide) (by decide)

theorem distinct_underscores : underscoresPlan.Distinct :=
  ⟨by decide, by decide, by decide, by decide, by decide⟩

def underscoresCodec : Codec :=
  ⟨"M", "M", underscoresPlan.fields.map fun f => f.ready .both (.element (.scalar .fixed32))⟩

private theorem ofPlans_underscores (fill : Bool) :
    Codecs.ofPlans { decodeCase := .both, fillDefaults := fill } [underscoresPlan] = .ok ⟨[underscoresCodec], fill⟩ := by
  have hfield : ∀ f ∈ underscoresPlan.fields, Codecs.fieldOf { decodeCase := .both, fillDefaults := fill } underscoresPlan f =
      .ok (f.ready .both (.element (.scalar .fixed32))) := by
    intro f hf
    have htype : Codecs.fieldType [f] f = .ok (.element (.scalar .fixed32)) := by
      simp only [underscoresPlan, List.mem_cons, List.not_mem_nil, or_false] at hf
      rcases hf with rfl | rfl <;> rfl
    rw [Codecs.fieldOf, MessagePlan.withStem_stemOf distinct_underscores.stems hf, htype]
    rfl
  refine Codecs.ofPlans_eq_ok.2 ⟨rfl, .cons ?_ .nil⟩
  rw [Codecs.codecOf, mapM_eq_ok.2 (List.forall₂_map_right_iff.2 (List.forall₂_same.2 hfield))]
  rfl

/-- Two fields are decoded to the empty key, and the one that is absent puts its default over the value of the
other. -/
theorem filled_default_hides_value : (∃ after, Yields (Planner.plan [underscores] []) planner [underscoresPlan] after) ∧
    Plan.ZeroBased underscores ∧ underscoresPlan.Distinct ∧
    ∃ cs : Codecs, (∀ fill, Codecs.ofPlans { decodeCase := .both, fillDefaults := fill } [underscoresPlan] = .ok (cs.filling fill)) ∧
      ∃ c ∈ cs.codecs, ∃ sparse full : Entries,
        (cs.filling false).decode c [0x15, 5, 0, 0, 0] = .ok (.mapping sparse) ∧
        (cs.filling true).decode c [0x15, 5, 0, 0, 0] = .ok (.mapping full) ∧
        sparse.get? "" = some (.int 5) ∧ full.get? "" = some (.list []) := by
  refine ⟨plan_underscores, zeroBased_underscores, distinct_underscores, ⟨[underscoresCodec], false⟩, ofPlans_underscores,
    underscoresCodec, List.mem_cons_self, _, _, Codecs.decode_of_turn (g := ⟨[("__", .int 5), ("", .int 5)], []⟩) rfl,
    Codecs.decode_of_turn (g := ⟨[("__", .int 5), ("", .int 5)], []⟩) rfl, rfl, rfl⟩

end Sample

end MessageCodec
