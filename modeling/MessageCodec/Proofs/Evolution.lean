import MessageCodec.Proofs.Plan
import MessageCodec.Proofs.Trip

/-!
# A trip through an older message

Bytes of any kind are decoded by a message that may lack fields, encoded again and decoded by the full
one. The result is what the full message makes of the bytes at once: fields that the older message has
come back as they were decoded, and records of the others were kept and are found at the end.
-/

namespace MessageCodec

open Codec Wire

namespace Codecs

/-! ### Records that the older message keeps -/

theorem hits_kept {cs : Codecs} {old : Codec} {f : Field} {rs : List Slice}
    (h : ∀ r ∈ rs, (f.arm? r.number r.form.code).isSome = true → old.arm? r.number r.form.code = none) :
    cs.hits f (rs.filter fun r => (old.arm? r.number r.form.code).isNone) = cs.hits f rs := by
  rw [hits, List.filterMap_filter, hits]
  refine List.filterMap_congr fun r hr => ?_
  split
  · rfl
  · rename_i hclaimed
    cases harm : f.arm? r.number r.form.code with
    | none => rfl
    | some arm =>
      rw [h r hr (by rw [harm]; rfl)] at hclaimed
      simp at hclaimed

theorem kept_kept {cs : Codecs} {old new : Codec} (hnew : new.WellFormed cs) (hsub : ∀ f ∈ old.fields, f ∈ new.fields)
    (rs : List Slice) : new.kept (rs.filter fun r => (old.arm? r.number r.form.code).isNone) = new.kept rs := by
  rw [kept, kept, List.filter_filter]
  congr 1
  refine List.filter_congr fun r _ => ?_
  cases hold : old.arm? r.number r.form.code with
  | none => rw [Option.isNone_none, Bool.and_true]
  | some found =>
    obtain ⟨f, arm⟩ := found
    obtain ⟨hf, harm⟩ := arm?_some hold
    rw [hnew.unmixed.arm?_of_mem (hsub f hf) harm]
    rfl

/-- What a field is decoded to is of the kind that comes back, if the messages in it do. -/
theorem stable_entry {cs : Codecs} {f : Field} (hf : f.WellFormed cs) {w : List UInt8} {rs : List Slice}
    (htiles : Tiles w rs)
    (hchild : ∀ name inner block u, f.type = .message name → cs.codec? name = some inner → block.length < w.length →
      cs.decode inner block = .ok u → (∃ held, f.entry true (cs.hits f rs) = some held ∧ u ∈ f.itemsOf held) →
      ∃ bytes u', cs.encode inner u = .ok bytes ∧ cs.decode inner bytes = .ok u' ∧ u'.Same u) :
    f.Stable cs (f.entry true (cs.hits f rs)) := by
  refine ⟨fun hrepeated => ⟨_, entry_of_repeated hrepeated _⟩, fun hsingular hpresence type htype => ?_,
    fun held hheld item hitem => ?_⟩
  · have hfallback : f.fallback = some f.default := by
      rw [Field.fallback, if_neg (by rw [hsingular]; simp), htype]
      exact if_neg (by rw [hpresence]; simp)
    rw [Field.entry, if_pos rfl, hfallback]
    cases f.gathered (cs.hits f rs) <;> simp
  · rw [Field.Returns]
    rcases mem_itemsOf_entry hf.steady hheld hitem with ⟨vs, hvs, hmem⟩ | ⟨type, htype, rfl⟩
    · have hyields := yields_of_mem_hits htiles hvs hmem
      have hnull := isNull_of_yields hyields
      rw [Field.Yields] at hyields
      cases htype : f.type with
      | element type =>
        rw [htype] at hyields
        exact hyields
      | message name =>
        rw [htype] at hyields
        obtain ⟨inner, block, hinner, hlt, hdecode⟩ := hyields
        obtain ⟨bytes, u, hbytes, hu, hsame⟩ := hchild name inner block item htype hinner hlt hdecode
          ⟨held, hheld, hitem⟩
        exact ⟨hnull, inner, bytes, u, hinner, hbytes, hu, hsame⟩
    · rw [htype]
      exact type.decoded_zero

/-- What a message is decoded to comes back field by field, if the messages in it do. -/
theorem stable_of_describes {cs : Codecs} (hfill : cs.fillDefaults = true) {c : Codec} (hc : c.WellFormed cs)
    {w : List UInt8} {rs : List Slice} (htiles : Tiles w rs) {entries : Entries} (h : cs.Describes c rs entries)
    (hfits : cs.Fits c (.mapping entries))
    (hchild : ∀ name inner block u, cs.codec? name = some inner → block.length < w.length →
      cs.decode inner block = .ok u → cs.Fits inner u →
      ∃ bytes u', cs.encode inner u = .ok bytes ∧ cs.decode inner bytes = .ok u' ∧ u'.Same u) :
    ∀ f ∈ c.fields, f.Stable cs ((Value.mapping entries).field? f.keys) := by
  intro f hf
  have hfield : (Value.mapping entries).field? f.keys = f.entry true (cs.hits f rs) :=
    hfill ▸ field?_of_describes hc htiles h hf
  rw [hfield]
  refine stable_entry (hc.fields f hf) htiles ?_
  rintro name inner block u htype hinner hlt hu ⟨held, hheld, hitem⟩
  have hfits' := hfits.child hf htype hinner (hfield.trans hheld) hitem (isNull_of_decode hu)
  exact hchild name inner block u hinner hlt hu hfits'

/-- Decoding by an older message, encoding and decoding by the full one. -/
theorem decode_encode_decode {cs : Codecs} (hclosed : cs.Closed) (hfill : cs.fillDefaults = true) {old new : Codec}
    (hold : old.WellFormed cs) (hnew : new.WellFormed cs) (hsub : ∀ f ∈ old.fields, f ∈ new.fields)
    {w : List UInt8} {v : Value} (hv : cs.decode old w = .ok v) (hfits : cs.Fits old v) :
    ∃ bytes u u', cs.encode old v = .ok bytes ∧ cs.decode new bytes = .ok u ∧ cs.decode new w = .ok u' ∧
      u.Same u' ∧ u.member? unknownKey = u'.member? unknownKey := by
  -- a message in the bytes is shorter, and there the older and the full message are one
  induction hn : w.length using Nat.strongRecOn generalizing old new w v with
  | _ n ih =>
    obtain ⟨rs, htiles⟩ := exists_tiles w
    obtain ⟨entries, hentries, hdescribes⟩ := decode_describes hclosed hold htiles
    obtain ⟨entries', hentries', hdescribes'⟩ := decode_describes hclosed hnew htiles
    obtain rfl := Except.ok.inj (hv.symm.trans hentries)
    have hfield : ∀ f ∈ old.fields, (Value.mapping entries).field? f.keys = f.entry true (cs.hits f rs) :=
      fun f hf => hfill ▸ field?_of_describes hold htiles hdescribes hf
    have hstable : ∀ f ∈ old.fields, f.Stable cs ((Value.mapping entries).field? f.keys) := by
      apply stable_of_describes hfill hold htiles hdescribes hfits
      intro name inner block u hinner hlt hu hfits'
      have hinner' := hclosed name inner hinner
      obtain ⟨bytes, u', u'', hbytes, hu', hu'', hsame, _⟩ := ih block.length (by omega) hinner' hinner'
        (fun _ h => h) hu hfits' rfl
      obtain rfl := Except.ok.inj (hu.symm.trans hu'')
      exact ⟨bytes, u', hbytes, hu', hsame⟩
    have hunclaimed : ∀ r ∈ rs.filter (fun r => (old.arm? r.number r.form.code).isNone), ∀ f ∈ old.fields,
        f.arm? r.number r.form.code = none := by
      intro r hr f hf
      rw [List.mem_filter, Option.isNone_iff_eq_none] at hr
      exact arm?_eq_none_of_mem hf hr.2
    obtain ⟨_, entries'', hencode, hdecode, hshared, hadded, hother⟩ := trip hclosed hfill hold hnew hsub hfits.here
      (unknownOfValue_of_describes hold.unmixed.placed hdescribes) hunclaimed hstable
    have hrest : ∀ key, (∀ f ∈ new.fields, key ∉ f.outputs) → Table.get? entries'' key = Table.get? entries' key := by
      intro key hkey
      rw [hother key hkey, hdescribes'.other key hkey, kept_kept hnew hsub]
    refine ⟨_, _, _, hencode, hdecode, hentries', Value.same_mapping fun key => ?_, hrest _ hnew.unknown_outputs⟩
    by_cases hkey : ∃ f ∈ new.fields, key ∈ f.outputs
    · obtain ⟨f, hf, hout⟩ := hkey
      rw [hdescribes'.field f hf key hout, hfill]
      by_cases hf' : f ∈ old.fields
      · rw [← hfield f hf']
        exact hshared f hf' key hout
      · rw [hadded f hf hf' key hout, hits_kept]
        · exact Value.same_rel_refl _
        · intro r _ hsome
          by_contra hclaimed
          obtain ⟨⟨g, arm⟩, harm⟩ := Option.ne_none_iff_exists'.1 hclaimed
          obtain ⟨hg, harm'⟩ := arm?_some harm
          have hnumber : g.number ≠ f.number := fun heq => hf' (hnew.unmixed.eq_of_number (hsub g hg) hf heq ▸ hg)
          rw [Field.arm?_none_of_claimed hnumber (by rw [harm']; rfl)] at hsome
          simp at hsome
    · rw [hrest key fun f hf hout => hkey ⟨f, hf, hout⟩]
      exact Value.same_rel_refl _

/-- A trip through an older message loses nothing: whatever bytes it is given, the older message decodes
them, and what it encodes is to the full message what the bytes were. -/
theorem older_message_keeps_records (settings : Settings) (hfill : settings.fillDefaults = true)
    {plans : List MessagePlan} (hplans : ∀ p ∈ plans, p.WellFormed plans ∧ p.Exposed settings.decodeCase)
    {old new : MessagePlan} (hold : old.WellFormed plans) (hnew : new.WellFormed plans)
    (hexposed : new.Exposed settings.decodeCase) (hsub : old.fields.Sublist new.fields) :
    ∃ cs older full, ofPlans settings plans = .ok cs ∧ codecOf settings old = .ok older ∧
      codecOf settings new = .ok full ∧ ∀ w : List UInt8,
        ∃ v, cs.decodeValue older (.bytes w) = .ok v ∧ (cs.Fits older v →
          ∃ text u u', cs.encodeText older v = .ok text ∧ cs.decodeValue full (.text text) = .ok u ∧
            cs.decodeValue full (.bytes w) = .ok u' ∧ u.Same u' ∧ u.member? unknownKey = u'.member? unknownKey) := by
  obtain ⟨cs, hcs, hdefaults, hclosed, hfound⟩ :=
    exists_closed (fun p hp => (hplans p hp).1) fun p hp => (hplans p hp).2
  obtain ⟨older, holder, _, hready⟩ := exists_codecOf settings hold
  obtain ⟨full, hfull, _, hready'⟩ := exists_codecOf settings hnew
  have hexposed' : old.Exposed settings.decodeCase :=
    ⟨fun f hf => hexposed.first f (hsub.subset hf), hexposed.outputs.sublist hsub⟩
  have hwf := codecOf_wellFormed hfound hold hexposed' hready
  have hwf' := codecOf_wellFormed hfound hnew hexposed hready'
  have hfields : ∀ f ∈ older.fields, f ∈ full.fields := by
    intro g hg
    obtain ⟨f, hf, type, htype, rfl⟩ := exists_of_forall₂ hready hg
    obtain ⟨g, hg', type', htype', rfl⟩ := exists_of_forall₂ hready'.flip (hsub.subset hf)
    exact holds_unique htype htype' ▸ hg'
  refine ⟨cs, older, full, hcs, holder, hfull, fun w => ?_⟩
  obtain ⟨rs, htiles⟩ := exists_tiles w
  obtain ⟨entries, hv, _⟩ := decode_describes hclosed hwf htiles
  refine ⟨_, hv, fun hfits => ?_⟩
  obtain ⟨bytes, u, u', hbytes, hu, hu', hsame, hunknown⟩ :=
    decode_encode_decode hclosed (hdefaults.trans hfill) hwf hwf' hfields hv hfits
  exact ⟨_, u, u', encodeText_eq_ok.2 ⟨bytes, hbytes, rfl⟩, (decodeValue_encodeText cs full bytes).trans hu, hu', hsame,
    hunknown⟩

end Codecs

namespace Sample

def oldPost : MessagePlan := { post with fields := post.fields.take 1 }

def oldPostCodec : Codec := { postCodec with fields := postCodec.fields.take 1 }

theorem oldPost_wellFormed : oldPost.WellFormed [post] where
  fields f hf := post_wellFormed.fields f (List.mem_of_mem_take hf)
  numbers := by decide
  stems := by decide
  keys := by decide
  unknown := by decide

/-- Without texts and messages there are no blocks. -/
theorem fits_oldPost (cs : Codecs) (v : Value) : cs.Fits oldPostCodec v := by
  refine .of_children (fun block hblock => ?_) fun f hf name inner w item htype => ?_
  · cases hblock with
    | content hf _ htype hform =>
      obtain rfl := List.mem_singleton.1 hf
      obtain rfl := FieldType.element.inj htype
      simp [ElementType.wireType, ScalarType.wireType] at hform
    | packed hf _ _ hrepeated =>
      obtain rfl := List.mem_singleton.1 hf
      simp [FieldPlan.ready] at hrepeated
    | message hf _ htype =>
      obtain rfl := List.mem_singleton.1 hf
      simp [FieldPlan.ready] at htype
  · obtain rfl := List.mem_singleton.1 hf
    simp [FieldPlan.ready] at htype

/-- A number, a tag, a reply, a record of no field and half a record. -/
def mixed : List UInt8 := [8, 5, 18, 2, 0xc3, 0xa9, 130, 1, 2, 8, 1, 152, 6, 1, 26]

theorem older_message_keeps_records_mixed :
    (∀ p ∈ [post], p.WellFormed [post] ∧ p.Exposed .snake) ∧ oldPost.WellFormed [post] ∧
      oldPost.fields.Sublist post.fields ∧ ∃ cs older full v text u u', Codecs.ofPlans {} [post] = .ok cs ∧
        Codecs.codecOf {} oldPost = .ok older ∧ Codecs.codecOf {} post = .ok full ∧
        cs.decodeValue older (.bytes mixed) = .ok v ∧ cs.Fits older v ∧ cs.encodeText older v = .ok text ∧
        cs.decodeValue full (.text text) = .ok u ∧ cs.decodeValue full (.bytes mixed) = .ok u' ∧ u.Same u' ∧
        u.member? unknownKey = u'.member? unknownKey := by
  have hplans : ∀ p ∈ [post], p.WellFormed [post] ∧ p.Exposed .snake :=
    List.forall_mem_singleton.2 ⟨post_wellFormed, post_exposed⟩
  have hsub : oldPost.fields.Sublist post.fields := List.take_sublist 1 post.fields
  obtain ⟨cs, older, full, hcs, holder, hfull, hall⟩ := Codecs.older_message_keeps_records {} rfl hplans
    oldPost_wellFormed post_wellFormed post_exposed hsub
  have hcodec : older = oldPostCodec :=
    Except.ok.inj (holder.symm.trans (show Codecs.codecOf {} oldPost = .ok oldPostCodec from rfl))
  obtain ⟨v, hv, htrip⟩ := hall mixed
  have hfits : cs.Fits older v := hcodec ▸ fits_oldPost cs v
  obtain ⟨text, u, u', htext, hu, hu', hsame, hunknown⟩ := htrip hfits
  exact ⟨hplans, oldPost_wellFormed, hsub, cs, older, full, v, text, u, u', hcs, holder, hfull, hv, hfits, htext, hu,
    hu', hsame, hunknown⟩

/-- Not so under a key that is empty: the value is decoded, but not found again, and the zero of its type
takes its place. -/
theorem empty_key_is_lost : (∀ p ∈ [blank], p.WellFormed [blank]) ∧ ∃ cs c v u,
    Codecs.ofPlans camelSettings [blank] = .ok cs ∧ Codecs.codecOf camelSettings blank = .ok c ∧
      cs.decodeValue c (.bytes [13, 5, 0, 0, 0]) = .ok v ∧ cs.Fits c v ∧ cs.encodeText c v = .ok "" ∧
      cs.decodeValue c (.text "") = .ok u ∧ ¬ u.Same v := by
  refine ⟨fun p hp => List.mem_singleton.1 hp ▸ blank_wellFormed, ⟨[blankCodec], true⟩, blankCodec,
    .mapping [("", .int 5)], .mapping [("", .int 0)], ofPlans_blank, codecOf_blank, ?_, ?_, ?_, ?_, ?_⟩
  · exact decode_blank
  · exact Codecs.fits_of_encode encode_decoded_blank (by decide)
  · exact Codecs.encodeText_eq_ok.2 ⟨[], encode_decoded_blank, rfl⟩
  · show Codecs.decode ⟨[blankCodec], true⟩ blankCodec [] = _
    rw [Codecs.decode, Codecs.gather_eq_turn]
    rfl
  · intro hsame
    cases hsame with
    | mapping _ hentries => cases hentries "" (.int 0) (.int 5) rfl rfl

end Sample

end MessageCodec
