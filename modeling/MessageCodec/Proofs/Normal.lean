import MessageCodec.Proofs.Plan
import MessageCodec.Proofs.Trip

/-!
# Encoding settles a message

Whatever values a message is given, its bytes are a sequence of whole records, and what they are decoded
to is encoded to the same bytes. Each field is written again as it was: an element by a value with the
same payload, a message by what its own bytes are decoded to.
-/

namespace MessageCodec

open Codec Wire

theorem exists_forall₂_right {α β γ : Type} {R : α → β → Prop} {S : β → γ → Prop} {as : List α} {bs : List β}
    (h : List.Forall₂ R as bs) (hS : ∀ a ∈ as, ∀ b, R a b → ∃ c, S b c) : ∃ cs, List.Forall₂ S bs cs := by
  induction h with
  | nil => exact ⟨[], .nil⟩
  | @cons a b as bs hab _ ih =>
    obtain ⟨c, hc⟩ := hS a List.mem_cons_self b hab
    obtain ⟨cs, hcs⟩ := ih fun a' ha' => hS a' (List.mem_cons_of_mem _ ha')
    exact ⟨c :: cs, .cons hc hcs⟩

namespace Codecs

/-- The elements of a message settle after one trip, and it has kept no records. -/
structure RegularHere (c : Codec) (v : Value) : Prop where
  elements : ∀ f ∈ c.fields, ∀ type, f.type = .element type → ∀ w, v.field? f.keys = some w →
    ∀ item ∈ f.itemsOf w, type.Regular item
  unknown : v.field? [unknownKey] = none

/-- A message that settles after one trip, at every depth. -/
def Regular (cs : Codecs) : Codec → Value → Prop := cs.Everywhere RegularHere

/-- Values that are written again as some bytes, whether or not defaults are filled in. -/
def Resent (cs : Codecs) (f : Field) (bytes : List UInt8) (us : List Value) : Prop :=
  ∀ fill : Bool, cs.encodeHeld f ((f.holds us).or (if fill then f.fallback else none)) = .ok bytes

theorem elementRecords_nil (f : Field) : f.elementRecords [] = [] := by
  rw [Field.elementRecords]
  split
  · split <;> rfl
  · rfl

theorem elementRecords_singular {f : Field} (h : f.repeated = false) (p : Payload) :
    f.elementRecords [p] = if p.isZero && !f.presence then [] else record f.tag p.bytes := by
  rw [Field.elementRecords, if_neg (by rw [h]; simp)]
  cases hzero : p.isZero <;> cases f.presence <;> simp [hzero]

theorem encodeValue_elements {cs : Codecs} {f : Field} {type : ElementType} (htype : f.type = .element type) {w : Value}
    {ps : List Payload} (h : List.Forall₂ (fun item p => type.payload item = .ok p) (f.itemsOf w) ps) :
    cs.encodeValue f w = .ok (f.elementRecords ps) := by
  rw [encodeValue, htype]
  exact encodeElements_eq_ok.2 ⟨ps, h, rfl⟩

theorem encodeValue_singular {cs : Codecs} {f : Field} (hsingular : f.repeated = false) {type : ElementType}
    (htype : f.type = .element type) {w : Value} {p : Payload} (h : type.payload w = .ok p) :
    cs.encodeValue f w = .ok (f.elementRecords [p]) := by
  refine encodeValue_elements htype ?_
  rw [Field.itemsOf, if_neg (by rw [hsingular]; simp)]
  exact .cons h .nil

theorem encodeValue_list_nil {cs : Codecs} {f : Field} (hf : f.Steady cs) (hrepeated : f.repeated = true) :
    cs.encodeValue f (.list []) = .ok [] := by
  have hitems : f.itemsOf (.list []) = [] := if_pos hrepeated
  cases htype : f.type with
  | element type =>
    rw [← elementRecords_nil f]
    refine encodeValue_elements htype ?_
    rw [hitems]
    exact .nil
  | message name =>
    obtain ⟨inner, hinner⟩ := hf.child name htype
    refine (encodeValue_message htype hinner).2 ⟨[], ?_, rfl⟩
    rw [hitems]
    exact .nil

/-- A default that is filled in is written as nothing. -/
theorem encodeHeld_fallback {cs : Codecs} {f : Field} (hf : f.Steady cs) :
    cs.encodeHeld f f.fallback = .ok [] := by
  rw [Field.fallback]
  cases hrepeated : f.repeated with
  | true => exact encodeValue_list_nil hf hrepeated
  | false =>
    rw [if_neg (by simp)]
    cases htype : f.type with
    | message name => rfl
    | element type =>
      dsimp only
      split
      · rfl
      · rename_i hpresence
        rw [Bool.not_eq_true] at hpresence
        obtain ⟨p, hp⟩ := type.exists_settled (hf.sound type htype) type.decoded_zero
        rw [hf.default hrepeated hpresence type htype]
        refine (encodeValue_singular hrepeated htype hp.payload_eq).trans ?_
        rw [elementRecords_singular hrepeated, hp.isZero_iff.2 rfl, hpresence]
        rfl

/-- A field without values is written as nothing again. -/
theorem resent_nil {cs : Codecs} {f : Field} (hf : f.WellFormed cs) : cs.Resent f [] [] := by
  intro fill
  have hholds : f.holds [] = none := by
    rw [Field.holds]
    split <;> rfl
  rw [hholds, Option.none_or]
  cases fill with
  | true => exact encodeHeld_fallback hf.steady
  | false => rfl

/-- A list is written again as it came. -/
theorem resent_list {cs : Codecs} {f : Field} (hf : f.WellFormed cs) (hrepeated : f.repeated = true)
    {bytes : List UInt8} {us : List Value} (h : cs.encodeValue f (.list us) = .ok bytes) : cs.Resent f bytes us := by
  cases us with
  | nil =>
    obtain rfl := Except.ok.inj ((encodeValue_list_nil hf.steady hrepeated).symm.trans h)
    exact resent_nil hf
  | cons u us =>
    intro fill
    rw [Field.holds, if_pos hrepeated]
    exact h

/-- A value is written again with the same payload; a zero that was left out is left out again. -/
theorem resent_singular {cs : Codecs} {f : Field} (hf : f.WellFormed cs) (hsingular : f.repeated = false)
    {type : ElementType} (htype : f.type = .element type) {p : Payload} {u : Value} (h : type.payload u = .ok p) :
    cs.Resent f (f.elementRecords [p]) (if p.isZero && !f.presence then [] else [u]) := by
  cases hzero : p.isZero && !f.presence with
  | true =>
    rw [elementRecords_singular hsingular, hzero]
    exact resent_nil hf
  | false =>
    intro fill
    rw [Field.holds, if_neg (by rw [hsingular]; simp)]
    exact encodeValue_singular hsingular htype h

private theorem settle_elements {cs : Codecs} {c : Codec} {v w : Value} {f : Field} (hf : f ∈ c.fields)
    (hwf : f.WellFormed cs)
    (hfits : ∀ block, cs.Block c v block → block.length < 0x100000000) (hregular : RegularHere c v)
    (hw : v.field? f.keys = some w) {type : ElementType} (htype : f.type = .element type) {bytes : List UInt8}
    (h : cs.encodeValue f w = .ok bytes) : ∃ us rs, cs.Carries f bytes us rs ∧ cs.Resent f bytes us := by
  rw [encodeValue, htype] at h
  obtain ⟨ps, hps, rfl⟩ := encodeElements_eq_ok.1 h
  obtain ⟨us, hus⟩ : ∃ us, List.Forall₂ (fun p u => type.Reads p u ∧ type.payload u = .ok p) ps us := by
    refine exists_forall₂_right hps fun item hitem p hp => ?_
    have hitem' := hregular.elements f hf type htype w hw item hitem
    obtain ⟨u, hu, hpayload⟩ := type.exists_decoded (hwf.sound type htype) hitem' hp
    obtain ⟨p', hp'⟩ := type.exists_settled (hwf.sound type htype) hu
    obtain rfl := Except.ok.inj (hpayload.symm.trans hp'.payload_eq)
    refine ⟨u, hp'.reads fun block hform hblock => ?_, hpayload⟩
    exact hfits block (.content hf hw htype hform hitem hp hblock)
  cases hrepeated : f.repeated with
  | true =>
    obtain ⟨rs, hrs⟩ := carries_repeated hwf hrepeated htype (hus.imp fun _ _ h => h.1) fun hpacked =>
      hfits _ (.packed hf hw htype hrepeated hpacked (mapM_eq_ok.2 hps))
    refine ⟨us, rs, hrs, resent_list hwf hrepeated (encodeValue_elements htype ?_)⟩
    rw [Field.itemsOf, if_pos hrepeated]
    exact (hus.imp fun _ _ h => h.2).flip
  | false =>
    rw [Field.itemsOf, if_neg (by rw [hrepeated]; simp)] at hps
    cases hps with
    | @cons _ p _ _ hp hnil =>
      cases hnil
      cases hus with
      | cons hu _ =>
        obtain ⟨rs, hrs⟩ := carries_singular hwf hrepeated htype hu.1
        exact ⟨_, rs, hrs, resent_singular hwf hrepeated htype hu.2⟩

private theorem settle_messages {cs : Codecs} {c : Codec} {v w : Value} {f : Field} (hf : f ∈ c.fields)
    (hwf : f.WellFormed cs)
    (hfits : ∀ block, cs.Block c v block → block.length < 0x100000000) (hw : v.field? f.keys = some w)
    {name : String} (htype : f.type = .message name) {inner : Codec} (hinner : cs.codec? name = some inner)
    (hchild : ∀ item ∈ f.itemsOf w, item.isNull = false → ∀ block, cs.encode inner item = .ok block →
      ∃ u, cs.decode inner block = .ok u ∧ cs.encode inner u = .ok block)
    {bytes : List UInt8} (h : cs.encodeValue f w = .ok bytes) :
    ∃ us rs, cs.Carries f bytes us rs ∧ cs.Resent f bytes us := by
  obtain ⟨blocks, hblocks, rfl⟩ := (encodeValue_message htype hinner).1 h
  obtain ⟨us, hus⟩ : ∃ us, List.Forall₂ (fun block u => (block.length < 0x100000000 ∧ cs.decode inner block = .ok u) ∧
      cs.encode inner u = .ok block) blocks us := by
    refine exists_forall₂_right hblocks fun item hitem block hblock => ?_
    rw [List.mem_filter, Bool.not_eq_true'] at hitem
    obtain ⟨u, hdecode, hencode⟩ := hchild item hitem.1 hitem.2 block hblock
    exact ⟨u, ⟨hfits _ (.message hf hw htype hinner hitem.1 hitem.2 hblock), hdecode⟩, hencode⟩
  have hback : List.Forall₂ (fun u block => u.isNull = false ∧ cs.encode inner u = .ok block) us blocks :=
    (hus.imp fun _ _ h => And.intro (isNull_of_decode h.1.2) h.2).flip
  rw [List.forall₂_and_left] at hback
  have hfilter : us.filter (fun u => !u.isNull) = us :=
    List.filter_eq_self.2 fun u hu => by rw [hback.1 u hu]; rfl
  have hencodes : ∀ w', f.itemsOf w' = us →
      cs.encodeValue f w' = .ok (blocks.flatMap fun block => record f.tag (delimited block)) := by
    intro w' hitems
    refine (encodeValue_message htype hinner).2 ⟨blocks, ?_, rfl⟩
    rw [hitems, hfilter]
    exact hback.2
  obtain ⟨rs, hrs⟩ := carries_messages hwf htype hinner (hus.imp fun _ _ h => h.1)
  refine ⟨us, rs, hrs, ?_⟩
  cases hrepeated : f.repeated with
  | true => exact resent_list hwf hrepeated (hencodes _ (if_pos hrepeated))
  | false =>
    -- a lone message that is there is not null, so there is one block
    have hsingular : ¬ f.repeated = true := by rw [hrepeated]; simp
    rw [Field.itemsOf, if_neg hsingular, List.filter_cons_of_pos (by rw [isNull_of_field? hw]; rfl)] at hblocks
    cases hblocks with
    | cons _ hnil =>
      cases hnil
      cases hus with
      | cons _ hnil =>
        cases hnil
        intro fill
        rw [Field.holds, if_neg hsingular]
        exact hencodes _ (if_neg hsingular)

private theorem settle_field {cs : Codecs} {c : Codec} {v : Value} {f : Field} (hf : f ∈ c.fields)
    (hwf : f.WellFormed cs)
    (hfits : ∀ block, cs.Block c v block → block.length < 0x100000000) (hregular : RegularHere c v)
    (hchild : ∀ name inner w item, f.type = .message name → cs.codec? name = some inner → v.field? f.keys = some w →
      item ∈ f.itemsOf w → item.isNull = false → ∀ block, cs.encode inner item = .ok block →
      ∃ u, cs.decode inner block = .ok u ∧ cs.encode inner u = .ok block)
    {bytes : List UInt8} (h : cs.encodeField v f = .ok bytes) :
    ∃ us rs, cs.Carries f bytes us rs ∧ cs.Resent f bytes us := by
  rw [encodeField] at h
  cases hw : v.field? f.keys with
  | some w =>
    rw [hw] at h
    cases htype : f.type with
    | element type => exact settle_elements hf hwf hfits hregular hw htype h
    | message name =>
      obtain ⟨inner, hinner⟩ := hwf.child name htype
      exact settle_messages hf hwf hfits hw htype hinner (fun item => hchild name inner w item htype hinner hw) h
  | none =>
    rw [hw] at h
    obtain rfl := Except.ok.inj h
    exact ⟨[], [], carries_nil cs f, resent_nil hwf⟩

/-- Encoding a regular message writes whole records of its fields, and what they are decoded to is encoded
to the same bytes. -/
theorem encode_decode_encode {cs : Codecs} (hclosed : cs.Closed) {c : Codec} (hc : c.WellFormed cs) {v : Value}
    (hregular : cs.Regular c v) (hfits : cs.Fits c v) {bytes : List UInt8} (h : cs.encode c v = .ok bytes) :
    ∃ (rs : List Slice) (u : Value), bytes = rs.flatMap Slice.bytes ∧
      (∀ r ∈ rs, ∃ f ∈ c.fields, (f.arm? r.number r.form.code).isSome = true) ∧
      cs.decode c bytes = .ok u ∧ u.member? unknownKey = none ∧ cs.encode c u = .ok bytes := by
  induction hn : sizeOf v using Nat.strongRecOn generalizing c v bytes with
  | _ n ih =>
    obtain ⟨records, kept, hrecords, hkept, rfl⟩ := encode_eq_ok.1 h
    have hkept' : kept = [] := by
      rw [unknownOfValue, hregular.here.unknown] at hkept
      exact (Except.ok.inj hkept).symm
    rw [hkept', List.append_nil]
    have hchild : ∀ f ∈ c.fields, ∀ name inner w item, f.type = .message name → cs.codec? name = some inner →
        v.field? f.keys = some w → item ∈ f.itemsOf w → item.isNull = false →
        ∀ block, cs.encode inner item = .ok block →
        ∃ u, cs.decode inner block = .ok u ∧ cs.encode inner u = .ok block := by
      intro f hf name inner w item htype hinner hw hitem hnull block hblock
      have hsize : sizeOf item < n := by
        have := Value.sizeOf_lt_of_field? hw
        have := f.sizeOf_le_of_mem_itemsOf hitem
        omega
      obtain ⟨_, u, _, _, hdecode, _, hencode⟩ := ih _ hsize (hclosed name inner hinner)
        (hregular.child hf htype hinner hw hitem hnull) (hfits.child hf htype hinner hw hitem hnull) hblock rfl
      exact ⟨u, hdecode, hencode⟩
    -- a field is written again as the bytes it was written as, whatever these are
    have hmem := (List.forall₂_and_left _ _).2 ⟨fun _ hf => hf, hrecords⟩
    have hsettled : List.Forall₂ (fun f bs => ∃ us rs, cs.Carries f bs us rs ∧
        ∀ bs', cs.encodeField v f = .ok bs' → cs.Resent f bs' us) c.fields records := by
      refine hmem.imp fun f bs hbs => ?_
      obtain ⟨us, rs, hcarries, hresent⟩ :=
        settle_field hbs.1 (hc.fields f hbs.1) hfits.here hregular.here (hchild f hbs.1) hbs.2
      exact ⟨us, rs, hcarries, fun bs' hbs' => Except.ok.inj (hbs.2.symm.trans hbs') ▸ hresent⟩
    obtain ⟨rs, hbytes, hclaimed, hgathered⟩ := exists_records hc.numbers hsettled
    obtain ⟨entries, hdecode, hdescribes⟩ := decode_describes hclosed hc (tiles_flatMap rs)
    have hnokept : c.kept rs = [] := kept_eq_nil hc hclaimed
    rw [hbytes]
    refine ⟨rs, _, rfl, hclaimed, hdecode, ?_, ?_⟩
    · show Table.get? entries unknownKey = none
      rw [hdescribes.other unknownKey hc.unknown_outputs, if_neg (fun hand => hand.2 hnokept)]
    · refine encode_eq_ok.2 ⟨records, [], hmem.imp fun f bs hbs => ?_, ?_, by rw [List.append_nil, hbytes]⟩
      · obtain ⟨us, hresent, hus⟩ := hgathered f hbs.1
        rw [encodeField, field?_of_describes hc (tiles_flatMap rs) hdescribes hbs.1, Field.entry, hus]
        exact hresent bs hbs.2 _
      · rw [unknownOfValue_of_describes hc.unmixed.placed hdescribes, hnokept]

/-- Encoding settles a message once and for all: of whatever kind its values are, its bytes are whole
records of its fields, they are decoded without a rest, and what they are decoded to has the same text. -/
theorem encode_settles (settings : Settings) {plans : List MessagePlan}
    (hplans : ∀ p ∈ plans, p.WellFormed plans ∧ p.Exposed settings.decodeCase) {m : MessagePlan}
    (hm : m.WellFormed plans) (hexposed : m.Exposed settings.decodeCase) :
    ∃ cs c, ofPlans settings plans = .ok cs ∧ codecOf settings m = .ok c ∧
      ∀ v text, cs.Regular c v → cs.Fits c v → cs.encodeText c v = .ok text →
        ∃ (rs : List Slice) (u : Value), Base64.decode text.toList = rs.flatMap Slice.bytes ∧
          cs.gather c {} (rs.flatMap Slice.bytes) = rs.foldlM (cs.consume c) {} ∧
          (∀ r ∈ rs, ∃ f ∈ c.fields, (f.arm? r.number r.form.code).isSome = true) ∧
          cs.decodeValue c (.text text) = .ok u ∧ u.member? unknownKey = none ∧ cs.encodeText c u = .ok text := by
  obtain ⟨cs, hcs, _, hclosed, hfound⟩ := exists_closed (fun p hp => (hplans p hp).1) fun p hp => (hplans p hp).2
  obtain ⟨c, hc, _, hready⟩ := exists_codecOf settings hm
  have hwf : c.WellFormed cs := codecOf_wellFormed hfound hm hexposed hready
  refine ⟨cs, c, hcs, hc, fun v text hregular hfits htext => ?_⟩
  obtain ⟨bytes, hbytes, rfl⟩ := encodeText_eq_ok.1 htext
  obtain ⟨rs, u, hrecords, hclaimed, hu, hunknown, hagain⟩ := encode_decode_encode hclosed hwf hregular hfits hbytes
  refine ⟨rs, u, ?_, gather_of_tiles (tiles_flatMap rs) cs c {}, hclaimed,
    (decodeValue_encodeText cs c bytes).trans hu, hunknown, encodeText_eq_ok.2 ⟨bytes, hagain, rfl⟩⟩
  rw [ElementType.toList_encodeText, Base64.decode_encode, hrecords]

end Codecs

namespace Sample

/-- Posts settle unless they are moody or have kept records. -/
theorem regularHere_post {v : Value} (hmood : v.field? ["mood"] = none) (hunknown : v.field? [unknownKey] = none) :
    Codecs.RegularHere postCodec v := by
  refine ⟨fun f hf type htype w hw item _ => ?_, hunknown⟩
  simp only [postCodec, post, postTypes, List.zipWith_cons_cons, List.zipWith_nil_left, List.mem_cons,
    List.not_mem_nil, or_false] at hf
  rcases hf with rfl | rfl | rfl | rfl | rfl
  · obtain rfl := FieldType.element.inj htype
    exact (by decide : ScalarType.sint64 ≠ .float)
  · obtain rfl := FieldType.element.inj htype
    exact (by decide : ScalarType.string ≠ .float)
  · obtain rfl := FieldType.element.inj htype
    exact (by decide : ScalarType.int32 ≠ .float)
  · exact absurd (hmood.symm.trans hw) (by simp)
  · simp [FieldPlan.ready] at htype

def sloppyReply : Value := .object [("id", .float (Binary64.ofPattern 0x4006000000000000))]

def sloppy : Value :=
  .object [("id", .text " -3.7 "), ("tags", .text "lone"), ("scores", .stream [.bool true, .null, .text "300"]),
    ("replies", .tuple [.null, sloppyReply])]

private theorem regular_sloppyReply : Codecs.Regular ⟨[postCodec], true⟩ postCodec sloppyReply := by
  refine .of_children (regularHere_post rfl rfl) fun f hf name inner w item htype _ hw => ?_
  rw [(keys_of_message hf htype).1] at hw
  exact absurd ((show sloppyReply.field? ["replies"] = none from rfl).symm.trans hw) (by simp)

private theorem regular_sloppy : Codecs.Regular ⟨[postCodec], true⟩ postCodec sloppy := by
  refine .of_children (regularHere_post rfl rfl) fun f hf name inner w item htype hinner hw hitem hnull => ?_
  obtain ⟨hkeys, hrepeated⟩ := keys_of_message hf htype
  rw [hkeys] at hw
  obtain rfl := Option.some.inj ((show sloppy.field? ["replies"] = some (.tuple [.null, sloppyReply])
    from rfl).symm.trans hw)
  rw [Field.itemsOf, if_pos hrepeated] at hitem
  rw [eq_postCodec hinner]
  rcases List.mem_pair.1 hitem with rfl | rfl
  · simp [Value.isNull] at hnull
  · exact regular_sloppyReply

private theorem encode_sloppy : Codecs.encode ⟨[postCodec], true⟩ postCodec sloppy = .ok (List.flatten
    [[8, 5], [18, 4, 108, 111, 110, 101], [26, 4, 1, 0, 172, 2], [], [130, 1, 2, 8, 4]] ++ []) := by
  have hreply : Codecs.encode ⟨[postCodec], true⟩ postCodec sloppyReply = .ok [8, 4] := by
    rw [Codecs.encode_eq]
    exact eq_ok_of_toOption (by decide +kernel)
  refine Codecs.encode_eq_ok.2 ⟨_, [], .cons ?_ (.cons ?_ (.cons ?_ (.cons rfl (.cons ?_ .nil)))), rfl, rfl⟩
  · exact eq_ok_of_toOption (by decide +kernel)
  · exact eq_ok_of_toOption (by decide +kernel)
  · exact eq_ok_of_toOption (by decide +kernel)
  · have hreplies : Codecs.encodeValue ⟨[postCodec], true⟩ (post.fields[4].ready .snake (.message "forum.Post"))
        (.tuple [.null, sloppyReply]) = .ok [130, 1, 2, 8, 4] :=
      (Codecs.encodeValue_message rfl rfl).2 ⟨[[8, 4]], .cons hreply .nil, by decide +kernel⟩
    exact hreplies

/-- A sloppy post is settled by its text. -/
theorem encode_settles_sloppy : (∀ p ∈ [post], p.WellFormed [post] ∧ p.Exposed .snake) ∧ ∃ cs c text rs u,
    Codecs.ofPlans {} [post] = .ok cs ∧ Codecs.codecOf {} post = .ok c ∧ cs.Regular c sloppy ∧ cs.Fits c sloppy ∧
      cs.encodeText c sloppy = .ok text ∧ Base64.decode text.toList = List.flatMap Slice.bytes rs ∧
      cs.gather c {} (List.flatMap Slice.bytes rs) = rs.foldlM (cs.consume c) {} ∧
      (∀ r ∈ rs, ∃ f ∈ c.fields, (f.arm? r.number r.form.code).isSome = true) ∧
      cs.decodeValue c (.text text) = .ok u ∧ u.member? unknownKey = none ∧ cs.encodeText c u = .ok text := by
  have hplans : ∀ p ∈ [post], p.WellFormed [post] ∧ p.Exposed .snake :=
    List.forall_mem_singleton.2 ⟨post_wellFormed, post_exposed⟩
  obtain ⟨cs, c, hcs, hc, hall⟩ := Codecs.encode_settles {} hplans post_wellFormed post_exposed
  obtain rfl := Except.ok.inj (ofPlans_post.symm.trans hcs)
  obtain rfl := Except.ok.inj (codecOf_post.symm.trans hc)
  have hfits := Codecs.fits_of_encode encode_sloppy (by decide)
  have htext := Codecs.encodeText_eq_ok.2 ⟨_, encode_sloppy, rfl⟩
  obtain ⟨rs, u, hrest⟩ := hall sloppy _ regular_sloppy hfits htext
  exact ⟨hplans, _, _, _, rs, u, hcs, hc, regular_sloppy, hfits, htext, hrest⟩

/-- Not so where a decoded value is put under an empty key: what it is decoded to has another text. -/
theorem empty_key_unsettles : (∀ p ∈ [blank], p.WellFormed [blank]) ∧ ∃ cs c u,
    Codecs.ofPlans camelSettings [blank] = .ok cs ∧ Codecs.codecOf camelSettings blank = .ok c ∧
      cs.Regular c (.mapping [("_", .int 5)]) ∧ cs.Fits c (.mapping [("_", .int 5)]) ∧
      cs.encodeText c (.mapping [("_", .int 5)]) = .ok "DQUAAAA=" ∧
      cs.decodeValue c (.text "DQUAAAA=") = .ok u ∧ cs.encodeText c u = .ok "" := by
  have hencode : Codecs.encode ⟨[blankCodec], true⟩ blankCodec (.mapping [("_", .int 5)]) = .ok [13, 5, 0, 0, 0] := by
    rw [Codecs.encode_eq]
    exact eq_ok_of_toOption (by decide +kernel)
  have htext : Base64.encodeText [13, 5, 0, 0, 0] = "DQUAAAA=" := by decide
  refine ⟨List.forall_mem_singleton.2 blank_wellFormed, ⟨[blankCodec], true⟩, blankCodec, .mapping [("", .int 5)],
    ofPlans_blank, codecOf_blank, ?_, Codecs.fits_of_encode hencode (by decide), ?_, ?_, ?_⟩
  · refine .of_children ⟨fun f hf type htype _ _ _ _ => ?_, rfl⟩ fun f hf name _ _ _ htype => ?_
    · obtain rfl := List.mem_singleton.1 hf
      obtain rfl := FieldType.element.inj htype
      exact (by decide : ScalarType.fixed32 ≠ .float)
    · obtain rfl := List.mem_singleton.1 hf
      simp [FieldPlan.ready] at htype
  · exact Codecs.encodeText_eq_ok.2 ⟨_, hencode, htext.symm⟩
  · rw [← htext, Codecs.decodeValue_encodeText]
    exact decode_blank
  · exact Codecs.encodeText_eq_ok.2 ⟨[], encode_decoded_blank, rfl⟩

end Sample

end MessageCodec
