import MessageCodec.Proofs.Parts
import MessageCodec.Proofs.Reading

/-!
# One trip

A message whose values are of the kind that decoding yields is encoded, and what its bytes are decoded
to has the same value in every field. The bytes may be decoded by a message with more fields: those
find their records among the ones that were kept.
-/

namespace MessageCodec

open Codec Wire

/-- Choices made for every element of a list, in two steps. -/
theorem exists_chain {α β γ : Type} {R : α → β → Prop} {S : β → γ → Prop} {T : γ → α → Prop} {as : List α}
    (h : ∀ a ∈ as, ∃ b c, R a b ∧ S b c ∧ T c a) :
    ∃ bs cs, List.Forall₂ R as bs ∧ List.Forall₂ S bs cs ∧ List.Forall₂ T cs as := by
  induction as with
  | nil => exact ⟨[], [], .nil, .nil, .nil⟩
  | cons a as ih =>
    obtain ⟨b, c, hR, hS, hT⟩ := h a List.mem_cons_self
    obtain ⟨bs, cs, hRs, hSs, hTs⟩ := ih fun a' ha' => h a' (List.mem_cons_of_mem _ ha')
    exact ⟨b :: bs, c :: cs, .cons hR hRs, .cons hS hSs, .cons hT hTs⟩

namespace Codec

theorem Field.arm?_none_of_claimed {f g : Field} (hne : f.number ≠ g.number) {number code : Nat}
    (h : (f.arm? number code).isSome = true) : g.arm? number code = none := by
  obtain ⟨arm, harm⟩ := Option.isSome_iff_exists.1 h
  by_contra hsome
  obtain ⟨arm', harm'⟩ := Option.ne_none_iff_exists'.1 hsome
  exact hne ((number_of_arm? harm).symm.trans (number_of_arm? harm'))

end Codec

namespace Codecs

theorem kept_eq_nil {cs : Codecs} {c : Codec} (hc : c.WellFormed cs) {rs : List Slice}
    (h : ∀ r ∈ rs, ∃ f ∈ c.fields, (f.arm? r.number r.form.code).isSome = true) : c.kept rs = [] := by
  have hfilter : rs.filter (fun r => (c.arm? r.number r.form.code).isNone) = [] := by
    rw [List.filter_eq_nil_iff]
    intro r hr
    obtain ⟨f, hf, hsome⟩ := h r hr
    obtain ⟨arm, harm⟩ := Option.isSome_iff_exists.1 hsome
    rw [hc.unmixed.arm?_of_mem hf harm]
    simp
  rw [kept, hfilter, List.flatMap_nil]

theorem hits_eq_nil {cs : Codecs} {f : Field} {rs : List Slice}
    (h : ∀ r ∈ rs, f.arm? r.number r.form.code = none) : cs.hits f rs = [] := by
  rw [hits, List.filterMap_eq_nil_iff]
  intro r hr
  rw [h r hr]
  rfl

/-- The records of all fields, each taken by its own. -/
theorem exists_records {cs : Codecs} {fields : List Field} (hnumbers : (fields.map Field.number).Nodup)
    {P : Field → List Value → Prop} {records : List (List UInt8)}
    (h : List.Forall₂ (fun f bs => ∃ us rs, cs.Carries f bs us rs ∧ P f us) fields records) :
    ∃ rs, records.flatten = rs.flatMap Slice.bytes ∧
      (∀ r ∈ rs, ∃ f ∈ fields, (f.arm? r.number r.form.code).isSome = true) ∧
      ∀ f ∈ fields, ∃ us, P f us ∧ f.gathered (cs.hits f rs) = f.holds us := by
  induction h with
  | nil => exact ⟨[], rfl, by simp, by simp⟩
  | @cons f bs fields records hfirst _ ih =>
    rw [List.map_cons, List.nodup_cons] at hnumbers
    have hne : ∀ g ∈ fields, f.number ≠ g.number := fun g hg heq =>
      hnumbers.1 (List.mem_map.2 ⟨g, hg, heq.symm⟩)
    obtain ⟨us, rs, hcarries, hP⟩ := hfirst
    obtain ⟨rs', hbytes, hclaimed, hgathered⟩ := ih hnumbers.2
    refine ⟨rs ++ rs', ?_, ?_, ?_⟩
    · rw [List.flatten_cons, List.flatMap_append, ← hbytes, ← hcarries.bytes_eq]
    · intro r hr
      rcases List.mem_append.1 hr with hr | hr
      · exact ⟨f, List.mem_cons_self, hcarries.claimed r hr⟩
      · obtain ⟨g, hg, hsome⟩ := hclaimed r hr
        exact ⟨g, List.mem_cons_of_mem _ hg, hsome⟩
    · intro g hg
      rw [hits_append]
      rcases List.mem_cons.1 hg with rfl | hg
      · have hnil : cs.hits g rs' = [] := hits_eq_nil fun r hr => by
          obtain ⟨g', hg', hsome⟩ := hclaimed r hr
          exact Field.arm?_none_of_claimed (hne g' hg').symm hsome
        rw [hnil, List.append_nil]
        exact ⟨us, hP, hcarries.gathered⟩
      · have hnil : cs.hits g rs = [] := hits_eq_nil fun r hr =>
          Field.arm?_none_of_claimed (hne g hg) (hcarries.claimed r hr)
        rw [hnil, List.nil_append]
        exact hgathered g hg

end Codecs

/-! ### The trip of a field -/

namespace Codec

/-- A value that comes back: one that a reader yields, or a message that comes back as the same. -/
def Field.Returns (cs : Codecs) (f : Field) (item : Value) : Prop :=
  match f.type with
  | .element type => type.Decoded item
  | .message name => item.isNull = false ∧ ∃ inner bytes u, cs.codec? name = some inner ∧
      cs.encode inner item = .ok bytes ∧ cs.decode inner bytes = .ok u ∧ u.Same item

/-- What a field is decoded to where defaults are filled in: a list where it is repeated, never nothing
where presence is not kept, and values that come back. -/
structure Field.Stable (cs : Codecs) (f : Field) (held : Option Value) : Prop where
  isList : f.repeated = true → ∃ items, held = some (.list items)
  present : f.repeated = false → f.presence = false → ∀ type, f.type = .element type → held ≠ none
  returns : ∀ w, held = some w → ∀ item ∈ f.itemsOf w, f.Returns cs item

end Codec

namespace Codecs

theorem carries_nil (cs : Codecs) (f : Field) : cs.Carries f [] [] [] := by
  refine ⟨rfl, by simp, ?_⟩
  rw [hits, List.filterMap_nil, Field.gathered, Field.holds]
  rfl

/-- A list comes back as a list, an empty one as the default. -/
theorem holds_or_fallback_list {f : Field} (h : f.repeated = true) (us : List Value) :
    (f.holds us).or f.fallback = some (.list us) := by
  rw [Field.holds, Field.fallback, if_pos h, if_pos h]
  cases us <;> rfl

/-- A value comes back as it was; one that was left out as a zero comes back as the default. -/
theorem holds_or_fallback_singular {cs : Codecs} {f : Field} (hf : f.WellFormed cs) (hsingular : f.repeated = false)
    {type : ElementType} (htype : f.type = .element type) {w : Value} {p : Payload} (h : type.Settled w p) :
    (f.holds (if p.isZero && !f.presence then [] else [w])).or f.fallback = some w := by
  rw [Field.holds, if_neg (by rw [hsingular]; simp)]
  cases hzero : p.isZero && !f.presence with
  | false => rfl
  | true =>
    simp only [Bool.and_eq_true, Bool.not_eq_true'] at hzero
    have hw : w = type.zero := h.isZero_iff.1 hzero.1
    rw [if_pos rfl, Field.fallback, if_neg (by rw [hsingular]; simp), htype]
    dsimp only
    rw [hzero.2, if_neg (by simp), hf.default hsingular hzero.2 type htype, hw]
    rfl

private theorem trip_elements {cs : Codecs} {c : Codec} {v w : Value} {f : Field} (hf : f ∈ c.fields)
    (hwf : f.WellFormed cs)
    (hfits : ∀ block, cs.Block c v block → block.length < 0x100000000) (hw : v.field? f.keys = some w)
    (hstable : f.Stable cs (some w)) {type : ElementType} (htype : f.type = .element type) :
    ∃ bs us rs, cs.encodeValue f w = .ok bs ∧ cs.Carries f bs us rs ∧
      Option.Rel Value.Same ((f.holds us).or f.fallback) (some w) := by
  have hencode : cs.encodeValue f w = encodeElements f type w := by rw [encodeValue, htype]
  obtain ⟨ps, us, hsettled, hreads, hsame⟩ : ∃ ps us, List.Forall₂ type.Settled (f.itemsOf w) ps ∧
      List.Forall₂ type.Reads ps us ∧ List.Forall₂ (· = ·) us (f.itemsOf w) := by
    refine exists_chain fun item hitem => ?_
    have hreturns := hstable.returns w rfl item hitem
    rw [Field.Returns, htype] at hreturns
    obtain ⟨p, hp⟩ := type.exists_settled (hwf.sound type htype) hreturns
    refine ⟨p, item, hp, hp.reads fun block hform hblock => ?_, rfl⟩
    exact hfits block (.content hf hw htype hform hitem hp.payload_eq hblock)
  have hpayloads : List.Forall₂ (fun item p => type.payload item = .ok p) (f.itemsOf w) ps :=
    hsettled.imp fun _ _ h => h.payload_eq
  rw [List.forall₂_eq_eq_eq] at hsame
  subst hsame
  cases hrepeated : f.repeated with
  | true =>
    obtain ⟨items, hitems⟩ := hstable.isList hrepeated
    obtain rfl := Option.some.inj hitems
    have hitemsOf : f.itemsOf (.list items) = items := if_pos hrepeated
    obtain ⟨rs, hrs⟩ := carries_repeated hwf hrepeated htype hreads fun hpacked =>
      hfits _ (.packed hf hw htype hrepeated hpacked (mapM_eq_ok.2 hpayloads))
    rw [hitemsOf] at hrs
    refine ⟨_, items, rs, hencode.trans (encodeElements_eq_ok.2 ⟨ps, hpayloads, rfl⟩), hrs, ?_⟩
    rw [holds_or_fallback_list hrepeated]
    exact Value.same_rel_refl _
  | false =>
    have hitemsOf : f.itemsOf w = [w] := if_neg (by rw [hrepeated]; simp)
    rw [hitemsOf] at hsettled hreads
    cases hsettled with
    | @cons _ p _ _ hp hnil =>
      cases hnil
      cases hreads with
      | cons hread _ =>
        obtain ⟨rs, hrs⟩ := carries_singular hwf hrepeated htype hread
        refine ⟨_, _, rs, hencode.trans (encodeElements_eq_ok.2 ⟨[p], hpayloads, rfl⟩), hrs, ?_⟩
        rw [holds_or_fallback_singular hwf hrepeated htype hp]
        exact Value.same_rel_refl _

private theorem trip_messages {cs : Codecs} {c : Codec} {v w : Value} {f : Field} (hf : f ∈ c.fields)
    (hwf : f.WellFormed cs)
    (hfits : ∀ block, cs.Block c v block → block.length < 0x100000000) (hw : v.field? f.keys = some w)
    (hstable : f.Stable cs (some w)) {name : String} (htype : f.type = .message name) :
    ∃ bs us rs, cs.encodeValue f w = .ok bs ∧ cs.Carries f bs us rs ∧
      Option.Rel Value.Same ((f.holds us).or f.fallback) (some w) := by
  obtain ⟨inner, hinner⟩ := hwf.child name htype
  have hreturns : ∀ item ∈ f.itemsOf w, item.isNull = false ∧ ∃ bytes u,
      cs.encode inner item = .ok bytes ∧ cs.decode inner bytes = .ok u ∧ u.Same item := by
    intro item hitem
    have hitem := hstable.returns w rfl item hitem
    rw [Field.Returns, htype] at hitem
    obtain ⟨hnull, inner', bytes, u, hinner', h⟩ := hitem
    obtain rfl := Option.some.inj (hinner.symm.trans hinner')
    exact ⟨hnull, bytes, u, h⟩
  have hfilter : (f.itemsOf w).filter (fun item => !item.isNull) = f.itemsOf w := by
    rw [List.filter_eq_self]
    intro item hitem
    rw [(hreturns item hitem).1]
    rfl
  obtain ⟨blocks, us, hblocks, hdecodes, hsame⟩ : ∃ blocks us,
      List.Forall₂ (fun item block => cs.encode inner item = .ok block) (f.itemsOf w) blocks ∧
      List.Forall₂ (fun block u => block.length < 0x100000000 ∧ cs.decode inner block = .ok u) blocks us ∧
      List.Forall₂ Value.Same us (f.itemsOf w) := by
    refine exists_chain fun item hitem => ?_
    obtain ⟨hnull, bytes, u, hencode, hdecode, hsame⟩ := hreturns item hitem
    exact ⟨bytes, u, hencode, ⟨hfits _ (.message hf hw htype hinner hitem hnull hencode), hdecode⟩, hsame⟩
  rw [← hfilter] at hblocks
  obtain ⟨rs, hrs⟩ := carries_messages hwf htype hinner hdecodes
  refine ⟨_, _, rs, (encodeValue_message htype hinner).2 ⟨_, hblocks, rfl⟩, hrs, ?_⟩
  cases hrepeated : f.repeated with
  | true =>
    obtain ⟨items, hitems⟩ := hstable.isList hrepeated
    obtain rfl := Option.some.inj hitems
    have hitemsOf : f.itemsOf (.list items) = items := if_pos hrepeated
    rw [hitemsOf] at hsame
    rw [holds_or_fallback_list hrepeated]
    exact .some (Value.same_list hsame)
  | false =>
    have hitemsOf : f.itemsOf w = [w] := if_neg (by rw [hrepeated]; simp)
    rw [hitemsOf] at hsame
    rw [Field.holds, if_neg (by rw [hrepeated]; simp)]
    cases hsame with
    | cons hu hnil =>
      cases hnil
      exact .some hu

theorem trip_field {cs : Codecs} {c : Codec} {v : Value} {f : Field} (hf : f ∈ c.fields) (hwf : f.WellFormed cs)
    (hfits : ∀ block, cs.Block c v block → block.length < 0x100000000) {held : Option Value}
    (hheld : v.field? f.keys = held) (hstable : f.Stable cs held) :
    ∃ bs us rs, cs.encodeField v f = .ok bs ∧ cs.Carries f bs us rs ∧
      Option.Rel Value.Same ((f.holds us).or f.fallback) held := by
  rw [encodeField, hheld, encodeHeld.eq_def]
  cases held with
  | some w =>
    cases htype : f.type with
    | element type => exact trip_elements hf hwf hfits hheld hstable htype
    | message name => exact trip_messages hf hwf hfits hheld hstable htype
  | none =>
    refine ⟨[], [], [], rfl, carries_nil cs f, ?_⟩
    have hrepeated : f.repeated = false := by
      by_contra h
      obtain ⟨items, hitems⟩ := hstable.isList (Bool.not_eq_false _ ▸ h)
      simp at hitems
    have hfallback : f.fallback = none := by
      rw [Field.fallback, if_neg (by rw [hrepeated]; simp)]
      cases htype : f.type with
      | message name => rfl
      | element type =>
        dsimp only
        rw [if_pos]
        by_contra h
        exact hstable.present hrepeated (Bool.eq_false_iff.2 h) type htype rfl
    rw [hfallback, Field.holds, if_neg (by rw [hrepeated]; simp)]
    exact .none

/-- The trip of a message. The bytes are decoded by a message that has at least its fields. -/
theorem trip {cs : Codecs} (hclosed : cs.Closed) (hfill : cs.fillDefaults = true) {old new : Codec}
    (hold : old.WellFormed cs) (hnew : new.WellFormed cs) (hsub : ∀ f ∈ old.fields, f ∈ new.fields) {v : Value}
    (hfits : ∀ block, cs.Block old v block → block.length < 0x100000000) {ks : List Slice}
    (hkept : unknownOfValue v = .ok (ks.flatMap Slice.bytes))
    (hks : ∀ r ∈ ks, ∀ f ∈ old.fields, f.arm? r.number r.form.code = none)
    (hstable : ∀ f ∈ old.fields, f.Stable cs (v.field? f.keys)) :
    ∃ (rs : List Slice) (entries : Entries), cs.encode old v = .ok (rs.flatMap Slice.bytes) ∧
      cs.decode new (rs.flatMap Slice.bytes) = .ok (.mapping entries) ∧
      (∀ f ∈ old.fields, ∀ key ∈ f.outputs, Option.Rel Value.Same (entries.get? key) (v.field? f.keys)) ∧
      (∀ f ∈ new.fields, f ∉ old.fields → ∀ key ∈ f.outputs, entries.get? key = f.entry true (cs.hits f ks)) ∧
      ∀ key, (∀ f ∈ new.fields, key ∉ f.outputs) → entries.get? key =
        if key = unknownKey ∧ new.kept ks ≠ [] then some (.text (Base64.encodeText (new.kept ks))) else none := by
  obtain ⟨records, hrecords⟩ : ∃ records, List.Forall₂ (fun f bs => cs.encodeField v f = .ok bs ∧
      ∃ us rs, cs.Carries f bs us rs ∧ Option.Rel Value.Same ((f.holds us).or f.fallback) (v.field? f.keys))
      old.fields records := by
    refine exists_forall₂ fun f hf => ?_
    obtain ⟨bs, us, rs, hbs, hrs, hrel⟩ := trip_field hf (hold.fields f hf) hfits rfl (hstable f hf)
    exact ⟨bs, hbs, us, rs, hrs, hrel⟩
  obtain ⟨rs, hbytes, hclaimed, hgathered⟩ := exists_records hold.numbers (hrecords.imp fun _ _ h => h.2)
  have hbytes' : records.flatten ++ ks.flatMap Slice.bytes = (rs ++ ks).flatMap Slice.bytes := by
    rw [List.flatMap_append, hbytes]
  have hencode : cs.encode old v = .ok ((rs ++ ks).flatMap Slice.bytes) :=
    encode_eq_ok.2 ⟨records, _, hrecords.imp fun _ _ h => h.1, hkept, hbytes'.symm⟩
  obtain ⟨entries, hdecode, hfield, hother⟩ := decode_describes hclosed hnew (tiles_flatMap (rs ++ ks))
  refine ⟨rs ++ ks, entries, hencode, hdecode, fun f hf key hkey => ?_, fun f hf hnot key hkey => ?_,
    fun key hkey => ?_⟩
  · obtain ⟨us, hrel, hus⟩ := hgathered f hf
    rw [hfield f (hsub f hf) key hkey, hfill, Field.entry, hits_append, hits_eq_nil fun r hr => hks r hr f hf,
      List.append_nil, hus]
    exact hrel
  · -- an added field finds its records among the kept ones only
    have hnil : cs.hits f rs = [] := hits_eq_nil fun r hr => by
      obtain ⟨g, hg, hsome⟩ := hclaimed r hr
      refine Field.arm?_none_of_claimed (fun hnumber => hnot ?_) hsome
      exact hnew.unmixed.eq_of_number (hsub g hg) hf hnumber ▸ hg
    rw [hfield f hf key hkey, hfill, hits_append, hnil, List.nil_append]
  · have hnil : new.kept rs = [] := kept_eq_nil hnew fun r hr => by
      obtain ⟨g, hg, hsome⟩ := hclaimed r hr
      exact ⟨g, hsub g hg, hsome⟩
    rw [hother key hkey, kept_append, hnil, List.nil_append]

end Codecs

end MessageCodec
