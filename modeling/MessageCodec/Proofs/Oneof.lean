import MessageCodec.Proofs.Defaults
import MessageCodec.Proofs.Sequence

/-!
# Members of a oneof

A reader selects the member of a oneof that comes last. Decoding keeps every member that occurs, and encoding
writes each of them once, in the order in which they are declared; so the member that is declared last is selected,
which is the one that came last if no other occurs.
-/

namespace MessageCodec

open Codec Wire

namespace Codec

/-- The record belongs to the field: it has its number and a form that it can be read in. -/
def Field.takes (r : Slice) (f : Field) : Bool := (f.arm? r.number r.form.code).isSome

def occurring (members : List Field) (rs : List Slice) : List Field :=
  rs.filterMap fun r => members.find? (Field.takes r)

def numbered (c : Codec) (numbers : List Int) : List Field := c.fields.filter fun f => numbers.contains f.number

def Field.occurs (rs : List Slice) (f : Field) : Bool := rs.any fun r => f.takes r

theorem occurring_append (members : List Field) (rs rs' : List Slice) :
    occurring members (rs ++ rs') = occurring members rs ++ occurring members rs' :=
  List.filterMap_append

theorem occurring_eq_nil {members : List Field} {rs : List Slice}
    (h : ∀ r ∈ rs, ∀ f ∈ members, f.arm? r.number r.form.code = none) : occurring members rs = [] := by
  rw [occurring, List.filterMap_eq_nil_iff]
  intro r hr
  rw [List.find?_eq_none]
  intro f hf
  rw [Field.takes, h r hr f hf]
  simp

section Members

variable {fields : List Field} (hnumbers : (fields.map Field.number).Nodup) (q : Field → Bool)

include hnumbers

/-- A record that a field takes is taken by no other. -/
theorem find?_of_takes {f : Field} (hf : f ∈ fields) {r : Slice} (hr : f.takes r = true) :
    (fields.filter q).find? (Field.takes r) = if q f then some f else none := by
  have hsame : ∀ g ∈ fields, g.takes r = true → g = f := by
    intro g hg htakes
    apply List.inj_on_of_nodup_map hnumbers hg hf
    by_contra hne
    rw [Field.takes, Field.arm?_none_of_claimed (Ne.symm hne) hr] at htakes
    cases htakes
  cases hfind : (fields.filter q).find? (Field.takes r) with
  | some g =>
    obtain ⟨hg, hq⟩ := List.mem_filter.1 (List.mem_of_find?_eq_some hfind)
    rw [hsame g hg (List.find?_some hfind)] at hq ⊢
    rw [if_pos hq]
  | none =>
    rw [List.find?_eq_none] at hfind
    rw [if_neg]
    intro hq
    exact hfind f (List.mem_filter.2 ⟨hf, hq⟩) hr

private theorem occurring_of_takes {f : Field} (hf : f ∈ fields) {rs : List Slice}
    (hrs : ∀ r ∈ rs, f.takes r = true) :
    occurring (fields.filter q) rs = if q f then List.replicate rs.length f else [] := by
  induction rs with
  | nil => simp [occurring]
  | cons r rs ih =>
    rw [List.forall_mem_cons] at hrs
    have hrest := ih hrs.2
    rw [occurring] at hrest ⊢
    rw [List.filterMap_cons, find?_of_takes hnumbers q hf hrs.1, hrest]
    cases q f <;> rfl

private theorem mem_occurring {f : Field} {rs : List Slice} :
    f ∈ occurring (fields.filter q) rs ↔ f ∈ (fields.filter q).filter (Field.occurs rs) := by
  rw [occurring, List.mem_filterMap, List.mem_filter, Field.occurs, List.any_eq_true]
  constructor
  · rintro ⟨r, hr, hfind⟩
    exact ⟨List.mem_of_find?_eq_some hfind, r, hr, List.find?_some hfind⟩
  · rintro ⟨hf, r, hr, htakes⟩
    rw [List.mem_filter] at hf
    refine ⟨r, hr, ?_⟩
    rw [find?_of_takes hnumbers q hf.1 htakes, if_pos hf.2]

/-- Records that are written field by field, one for each chosen field that is there, bring the chosen fields in
the order in which they are declared. -/
theorem occurring_flatten (there : Field → Bool) {part : List Field} (hpart : ∀ f ∈ part, f ∈ fields)
    {segments : List (List Slice)}
    (h : List.Forall₂ (fun f rs => (∀ r ∈ rs, f.takes r = true) ∧
      (q f = true → rs.length = if there f then 1 else 0)) part segments) :
    occurring (fields.filter q) segments.flatten = (part.filter q).filter there := by
  induction h with
  | nil => rfl
  | @cons f rs part segments hsegment _ ih =>
    rw [List.forall_mem_cons] at hpart
    rw [List.flatten_cons, occurring_append, ih hpart.2, occurring_of_takes hnumbers q hpart.1 hsegment.1,
      List.filter_cons]
    cases hq : q f with
    | false => rfl
    | true =>
      rw [hsegment.2 hq, if_pos rfl, if_pos rfl, List.filter_cons]
      cases there f <;> rfl

/-- If only one of the chosen fields occurs, it comes last in either order. -/
theorem getLast?_filter_occurs {rs : List Slice}
    (hone : ∀ f ∈ occurring (fields.filter q) rs, ∀ g ∈ occurring (fields.filter q) rs, f = g) :
    ((fields.filter q).filter (Field.occurs rs)).getLast? = (occurring (fields.filter q) rs).getLast? := by
  cases hlast : (occurring (fields.filter q) rs).getLast? with
  | none =>
    rw [List.getLast?_eq_none_iff] at hlast ⊢
    rw [List.eq_nil_iff_forall_not_mem]
    intro f hf
    rw [← mem_occurring hnumbers q, hlast] at hf
    cases hf
  | some f =>
    have hf := List.mem_of_getLast? hlast
    cases hlast' : ((fields.filter q).filter (Field.occurs rs)).getLast? with
    | none =>
      rw [List.getLast?_eq_none_iff] at hlast'
      rw [mem_occurring hnumbers q, hlast'] at hf
      cases hf
    | some g =>
      have hg := List.mem_of_getLast? hlast'
      rw [← mem_occurring hnumbers q] at hg
      rw [hone f hf g hg]

end Members

end Codec

namespace Codecs

variable {cs : Codecs} {c : Codec}

/-- A value that is not repeated and keeps its presence is written as one record. -/
theorem exists_slice_of_stable {v w : Value} {f : Field} (hf : f ∈ c.fields) (hwf : f.WellFormed cs)
    (hfits : ∀ block, cs.Block c v block → block.length < 0x100000000) (hw : v.field? f.keys = some w)
    (hstable : f.Stable cs (some w)) (hsingular : f.repeated = false) (hpresence : f.presence = true) :
    ∃ r : Slice, cs.encodeField v f = .ok r.bytes ∧ f.takes r = true := by
  have hitems : f.itemsOf w = [w] := if_neg (by rw [hsingular]; simp)
  have hitem : w ∈ f.itemsOf w := hitems ▸ List.mem_cons_self
  have hreturns := hstable.returns w rfl w hitem
  rw [Field.Returns] at hreturns
  rw [encodeField, hw, encodeHeld]
  cases htype : f.type with
  | element type =>
    rw [htype] at hreturns
    obtain ⟨p, hp⟩ := type.exists_settled (hwf.sound type htype) hreturns
    have hreads : type.Reads p w := hp.reads fun block hform hblock =>
      hfits block (.content hf hw htype hform hitem hp.payload_eq hblock)
    obtain ⟨r, hr, hhit⟩ : ∃ r : Slice, r.bytes = record f.tag p.bytes ∧ cs.hits f [r] = [[w]] :=
      exists_slice_element hwf.number_pos hwf.number_lt htype hreads
    refine ⟨r, ?_, claimed_of_hits hhit⟩
    rw [encodeValue_singular hsingular htype hp.payload_eq, elementRecords_singular hsingular, hpresence, hr,
      Bool.not_true, Bool.and_false, if_neg Bool.false_ne_true]
  | message name =>
    rw [htype] at hreturns
    obtain ⟨hnull, inner, bytes, u, hinner, hbytes, hu, -⟩ := hreturns
    obtain ⟨r, hr, hhit⟩ := exists_slice_message hwf htype hinner
      (hfits bytes (.message hf hw htype hinner hitem hnull hbytes)) hu
    refine ⟨r, (encodeValue_message htype hinner).2 ⟨[bytes], ?_, ?_⟩, claimed_of_hits hhit⟩
    · rw [hitems, List.filter_cons_of_pos (by rw [hnull]; rfl)]
      exact .cons hbytes .nil
    · rw [List.flatMap_singleton, hr]

/-- The records that a field is written as. -/
theorem exists_segment {v : Value} {f : Field} (hf : f ∈ c.fields) (hwf : f.WellFormed cs)
    (hfits : ∀ block, cs.Block c v block → block.length < 0x100000000) (hstable : f.Stable cs (v.field? f.keys)) :
    ∃ rs : List Slice, cs.encodeField v f = .ok (rs.flatMap Slice.bytes) ∧ (∀ r ∈ rs, f.takes r = true) ∧
      (f.repeated = false → f.presence = true → rs.length = if (v.field? f.keys).isSome then 1 else 0) := by
  by_cases hmember : f.repeated = false ∧ f.presence = true
  · cases hheld : v.field? f.keys with
    | none =>
      refine ⟨[], ?_, by simp, fun _ _ => rfl⟩
      rw [encodeField, hheld]
      rfl
    | some w =>
      rw [hheld] at hstable
      obtain ⟨r, hr, htakes⟩ := exists_slice_of_stable hf hwf hfits hheld hstable hmember.1 hmember.2
      refine ⟨[r], ?_, List.forall_mem_singleton.2 htakes, fun _ _ => rfl⟩
      rw [List.flatMap_singleton, hr]
  · obtain ⟨_, _, rs, hbytes, hcarries, -⟩ := trip_field hf hwf hfits rfl hstable
    refine ⟨rs, ?_, hcarries.claimed, fun hsingular hpresence => absurd ⟨hsingular, hpresence⟩ hmember⟩
    rw [hbytes, hcarries.bytes_eq]

/-- A field that keeps its presence is there just where it occurs. -/
theorem isSome_field?_of_describes (hc : c.WellFormed cs) {w : List UInt8} {rs : List Slice} (htiles : Tiles w rs)
    {entries : Entries} (hv : cs.decode c w = .ok (.mapping entries)) (h : cs.Describes c rs entries) {f : Field}
    (hf : f ∈ c.fields) (hsingular : f.repeated = false) (hpresence : f.presence = true) :
    ((Value.mapping entries).field? f.keys).isSome = f.occurs rs := by
  have hfallback : f.fallback = none := by
    rw [Field.fallback, if_neg (by rw [hsingular]; simp)]
    cases f.type with
    | message name => rfl
    | element type => exact if_pos hpresence
  have hentry : f.entry cs.fillDefaults (cs.hits f rs) = f.gathered (cs.hits f rs) := by
    rw [Field.entry, hfallback, ite_self, Option.or_none]
  rw [field?_of_describes hc htiles h hf, hentry, Bool.eq_iff_iff, isSome_gathered, Field.occurs, List.any_eq_true]
  · rfl
  · intro r hr arm harm
    exact readable_of_decode htiles hv r hr f arm (hc.unmixed.arm?_of_mem hf harm)

/-- What is decoded is written as records, in which chosen fields that keep their presence come in the order in
which they are declared, each once and only if it was there. -/
theorem exists_records_of_decode (hclosed : cs.Closed) (hfill : cs.fillDefaults = true) (hc : c.WellFormed cs)
    {q : Field → Bool} (hq : ∀ f ∈ c.fields, q f = true → f.repeated = false ∧ f.presence = true) {w : List UInt8}
    {rs : List Slice} (htiles : Tiles w rs) {v : Value} (hv : cs.decode c w = .ok v) (hfits : cs.Fits c v) :
    ∃ rs' : List Slice, cs.encode c v = .ok (rs'.flatMap Slice.bytes) ∧
      occurring (c.fields.filter q) rs' = (c.fields.filter q).filter (Field.occurs rs) := by
  obtain ⟨entries, hentries, hdescribes⟩ := decode_describes hclosed hc htiles
  obtain rfl := Except.ok.inj (hv.symm.trans hentries)
  have hstable : ∀ f ∈ c.fields, f.Stable cs ((Value.mapping entries).field? f.keys) := by
    apply stable_of_describes hfill hc htiles hdescribes hfits
    intro name inner block u hinner _ hu hfits'
    have hinner' := hclosed name inner hinner
    obtain ⟨bytes, u', u'', hbytes, hu', hu'', hsame, -⟩ :=
      decode_encode_decode hclosed hfill hinner' hinner' (fun _ h => h) hu hfits'
    obtain rfl := Except.ok.inj (hu.symm.trans hu'')
    exact ⟨bytes, u', hbytes, hu', hsame⟩
  have hsegment : ∀ f ∈ c.fields, ∃ segment : List Slice,
      cs.encodeField (.mapping entries) f = .ok (segment.flatMap Slice.bytes) ∧ (∀ r ∈ segment, f.takes r = true) ∧
      (q f = true → segment.length = if f.occurs rs then 1 else 0) := by
    intro f hf
    obtain ⟨segment, hencode, htakes, hlength⟩ := exists_segment hf (hc.fields f hf) hfits.here (hstable f hf)
    refine ⟨segment, hencode, htakes, fun hmember => ?_⟩
    obtain ⟨hsingular, hpresence⟩ := hq f hf hmember
    rw [hlength hsingular hpresence, isSome_field?_of_describes hc htiles hv hdescribes hf hsingular hpresence]
  obtain ⟨segments, hsegments⟩ := exists_forall₂ hsegment
  refine ⟨segments.flatten ++ rs.filter fun r => (c.arm? r.number r.form.code).isNone, ?_, ?_⟩
  · refine encode_eq_ok.2 ⟨segments.map fun segment => segment.flatMap Slice.bytes, _, ?_,
      unknownOfValue_of_describes hc.unmixed.placed hdescribes, ?_⟩
    · exact List.forall₂_map_right_iff.2 (hsegments.imp fun _ _ h => h.1)
    · rw [List.flatMap_append, kept, ← List.flatMap_def, ← List.flatMap_id, List.flatMap_assoc]
      rfl
  · have hkept : occurring (c.fields.filter q) (rs.filter fun r => (c.arm? r.number r.form.code).isNone) = [] := by
      apply occurring_eq_nil
      intro r hr f hf
      rw [List.mem_filter, Option.isNone_iff_eq_none] at hr
      exact arm?_eq_none_of_mem (List.mem_of_mem_filter hf) hr.2
    rw [occurring_append, hkept, List.append_nil]
    exact occurring_flatten hc.numbers q (Field.occurs rs) (fun _ hf => hf) (hsegments.imp fun _ _ h => h.2)

/-- Whatever bytes are decoded are encoded again, and as long as there are fewer than 2^32 of them they are records:
each member that occurred has one, in the order of the members. A member that occurred alone comes last again. -/
def Orders (cs : Codecs) (c : Codec) (members : List Field) : Prop :=
  ∀ w rs, Tiles w rs → ∃ v bytes, cs.decode c w = .ok v ∧ cs.encode c v = .ok bytes ∧
    (bytes.length < 0x100000000 → ∃ rs' : List Slice, bytes = rs'.flatMap Slice.bytes ∧
      occurring members rs' = members.filter (Field.occurs rs) ∧
      ((∀ f ∈ occurring members rs, ∀ g ∈ occurring members rs, f = g) →
        (occurring members rs').getLast? = (occurring members rs).getLast?))

/-- Members come in order with defaults and without, as both are written alike. -/
theorem orders_of_wellFormed {codecs : List Codec} (hclosed : Closed ⟨codecs, true⟩)
    (htidy : ∀ c ∈ codecs, c.Tidy ⟨codecs, true⟩) {c : Codec} (hc : c.WellFormed ⟨codecs, true⟩) (hmem : c ∈ codecs)
    {q : Field → Bool} (hq : ∀ f ∈ c.fields, q f = true → f.repeated = false ∧ f.presence = true) (fill : Bool) :
    Orders ⟨codecs, fill⟩ c (c.fields.filter q) := by
  intro w rs htiles
  have htidy' : ∀ name inner, codec? ⟨codecs, true⟩ name = some inner → inner.Tidy ⟨codecs, true⟩ :=
    fun _ inner hinner => htidy inner (List.mem_of_find?_eq_some hinner)
  have hown : ∀ inner : Codec, inner.WellFormed ⟨codecs, true⟩ → inner.Own "" :=
    fun inner hinner f hf g hg => hinner.outputs f hf g hg ""
  obtain ⟨entries, hfull, -⟩ := decode_describes hclosed hc htiles
  obtain ⟨bytes, hbytes⟩ := exists_encode_of_decode
    (fun name inner hinner => ⟨htidy' name inner hinner, hown inner (hclosed name inner hinner)⟩) (htidy c hmem)
    (hown c hc) hfull
  obtain ⟨v, hv, hencode⟩ : ∃ v, decode ⟨codecs, fill⟩ c w = .ok v ∧ encode ⟨codecs, fill⟩ c v = .ok bytes := by
    cases fill with
    | true => exact ⟨_, hfull, hbytes⟩
    | false =>
      have hboth := decode_completes htidy' (htidy c hmem) htiles
      cases hsparse : (filling ⟨codecs, true⟩ false).decode c w with
      | error e =>
        rw [hsparse, show (filling ⟨codecs, true⟩ true).decode c w = _ from hfull] at hboth
        cases hboth
      | ok v =>
        obtain ⟨_, heq, hsame, -⟩ := hboth.exists_ok hsparse
        obtain rfl := Except.ok.inj (hfull.symm.trans heq)
        exact ⟨v, hsparse, hsame.trans hbytes⟩
  refine ⟨v, bytes, hv, hencode, fun hlength => ?_⟩
  obtain ⟨rs', hrecords, horder⟩ := exists_records_of_decode hclosed rfl hc hq htiles hfull (fits_of_encode hbytes hlength)
  refine ⟨rs', Except.ok.inj (hbytes.symm.trans hrecords), horder, fun hone => ?_⟩
  rw [horder]
  exact getLast?_filter_occurs hc.numbers q hone

end Codecs

/-! ### Plans -/

namespace Plan

open Schema

def oneofNumbers (selected : List String) (m : Message) (oneof : String) : List Int :=
  ((supported selected m).filter fun f => f.oneof == some oneof).map Schema.Field.number

end Plan

open Planning

private theorem Planner.presence_of_oneof {place : Plan.Place} {f : Schema.Field} {oneof : String}
    (h : f.oneof = some oneof) (hsingular : f.cardinality ≠ .repeated) : presence place f = .ok true := by
  rw [presence, if_neg hsingular, if_pos]
  rw [h]
  simp

/-- The members of a oneof are not repeated and keep their presence. -/
theorem Codec.member_of_numbered {planner : Planner} {selected : List String} {place : Plan.Place} {m : MessagePlan}
    (hplace : m.Describes planner selected place) {choice : DecodeCase} {plans : List MessagePlan} {c : Codec}
    (hready : List.Forall₂ (Codecs.Ready choice plans) m.fields c.fields) (hnumbers : (c.fields.map Field.number).Nodup)
    {oneof : String} (hsingular : ∀ f ∈ place.message.fields, f.oneof = some oneof → f.cardinality ≠ .repeated)
    {g : Field} (hg : g ∈ c.fields) (hmember : g.number ∈ Plan.oneofNumbers selected place.message oneof) :
    g.repeated = false ∧ g.presence = true := by
  have hfields : List.Forall₂ (fun f g => ∃ plan : FieldPlan, plan.Describes planner.unescape place f ∧
      Codecs.Ready choice plans plan g) (Plan.supported selected place.message) c.fields :=
    forall₂_trans hplace.fields hready fun _ plan _ hplan hg => ⟨plan, hplan, hg⟩
  have hdeclared : (Plan.supported selected place.message).map Schema.Field.number = c.fields.map Field.number := by
    rw [← List.forall₂_eq_eq_eq, List.forall₂_map_left_iff, List.forall₂_map_right_iff]
    apply hfields.imp
    rintro f _ ⟨plan, hplan, type, -, rfl⟩
    exact hplan.number.symm
  obtain ⟨f, hf, plan, hplan, type, -, rfl⟩ := exists_of_forall₂ hfields hg
  obtain ⟨f', hf', hnumber⟩ := List.mem_map.1 hmember
  rw [List.mem_filter, beq_iff_eq] at hf'
  have hsame : f' = f := List.inj_on_of_nodup_map (hdeclared ▸ hnumbers) hf'.1 hf (hnumber.trans hplan.number)
  rw [hsame] at hf'
  have hcardinality := hsingular f (Plan.mem_supported.1 hf).1 hf'.2
  constructor
  · exact hplan.repeated.trans (decide_eq_false hcardinality)
  · exact (Except.ok.inj ((Planner.presence_of_oneof hf'.2 hcardinality).symm.trans hplan.presence)).symm

/-- Encoding what was decoded writes the members of a oneof in the order in which they are declared, whatever was
planned. Packages do so where no name in them is hidden and there is room for the levels, if the planner has been set
up. -/
theorem oneof_members_in_order {p after : Planner} {targets others : List Schema.File} {plans : List MessagePlan}
    (h : Yields (Planner.plan targets others) p plans after) (hfiles : ∀ file ∈ targets ++ others, Plan.ZeroBased file)
    (hplans : ∀ m ∈ plans, m.Distinct) (settings : Settings) (hexposed : ∀ m ∈ plans, m.Exposed settings.decodeCase) :
    ∃ places cs, Plan.collect targets others = .ok places ∧ Codecs.ofPlans settings plans = .ok cs ∧
      (∀ space requested, Planner.Reached space requested p → Package.Runs settings plans cs) ∧
      List.Forall₂ (fun place c => ∀ oneof, (∀ f ∈ place.message.fields, f.oneof = some oneof → f.cardinality ≠ .repeated) →
          cs.Orders c (c.numbered (Plan.oneofNumbers (Plan.namesOf (Plan.chosen places)) place.message oneof)))
        (Plan.chosen places) cs.codecs := by
  have hwf : ∀ m ∈ plans, m.WellFormed plans := fun m hm => Plan.wellFormed_of_yields h hfiles hplans hm
  obtain ⟨places, hplaces, hdescribes⟩ := Planner.plan_yields h
  obtain ⟨codecs, hcs, hready⟩ := Codecs.exists_ready settings hwf
  have hfound : ∀ m ∈ plans, ∃ inner, Codecs.codec? ⟨codecs, true⟩ m.fullName = some inner :=
    fun m hm => Codecs.exists_codec? hcs hm
  have hall : ∀ c ∈ codecs, c.WellFormed ⟨codecs, true⟩ ∧ c.Tidy ⟨codecs, true⟩ := by
    intro c hc
    obtain ⟨m, hm, hfields⟩ := exists_of_forall₂ hready hc
    exact ⟨Codecs.codecOf_wellFormed hfound (hwf m hm) (hexposed m hm) hfields,
      Codecs.tidy_of_wellFormed hfound (hwf m hm) hfields⟩
  have hready' : List.Forall₂ (fun (m : MessagePlan) (c : Codec) => c ∈ codecs ∧
      List.Forall₂ (Codecs.Ready settings.decodeCase plans) m.fields c.fields) plans codecs :=
    ((List.forall₂_and_left _ _).2 ⟨fun _ hc => hc, hready.flip⟩).flip
  refine ⟨places, _, hplaces, hcs, fun _ _ hp => hp.runs h hcs, forall₂_trans hdescribes hready' ?_⟩
  intro place m c hplace ⟨hmem, hfields⟩ oneof hsingular
  apply Codecs.orders_of_wellFormed (fun _ c hc => (hall c (List.mem_of_find?_eq_some hc)).1) (fun c hc => (hall c hc).2)
    (hall c hmem).1 hmem
  intro f hf hmember
  rw [List.contains_iff_mem] at hmember
  exact member_of_numbered hplace hfields (hall c hmem).1.numbers hsingular hf hmember

namespace Sample

open Schema

def choiceMessage : Message where
  id := 0
  name := "M"
  fullName := "M"
  fields := [
    { name := "a", number := 1, kind := .scalar, scalar := some ScalarType.fixed32.name, oneof := some "kind" },
    { name := "b", number := 2, kind := .scalar, scalar := some ScalarType.fixed32.name, oneof := some "kind" }]

def choice : File where
  name := "choice.proto"
  dialect := .proto3
  messages := [choiceMessage]

def choicePlan : MessagePlan where
  name := "M"
  fullName := "M"
  symbol := "M"
  fileName := some "choice.proto"
  fields := [
    { name := "a", number := 1, kind := .scalar, scalar := some ScalarType.fixed32.name, jsonName := some "a",
      presence := true, default := .int 0 },
    { name := "b", number := 2, kind := .scalar, scalar := some ScalarType.fixed32.name, jsonName := some "b",
      presence := true, default := .int 0 }]

theorem plan_choice : ∃ after, Yields (Planner.plan [choice] []) planner [choicePlan] after :=
  plan_lone rfl rfl rfl rfl (by decide) (by decide) fun journal => ⟨_, rfl⟩

theorem zeroBased_choice : ∀ file ∈ [choice] ++ [], Plan.ZeroBased file :=
  List.forall_mem_singleton.2 (zeroBased_of_bare (by decide) (by decide))

theorem distinct_choice : ∀ m ∈ [choicePlan], m.Distinct :=
  List.forall_mem_singleton.2 ⟨by decide, by decide, by decide, by decide, by decide⟩

private theorem exposed_choice : ∀ m ∈ [choicePlan], m.Exposed .snake :=
  List.forall_mem_singleton.2 ⟨by decide, by decide⟩

theorem ofPlans_choice : Codecs.ofPlans {} [choicePlan] = .ok ⟨[wordsCodec .snake choicePlan], true⟩ := rfl

theorem oneof_members_in_order_choice : (∃ after, Yields (Planner.plan [choice] []) planner [choicePlan] after) ∧
    (∀ file ∈ [choice] ++ [], Plan.ZeroBased file) ∧ (∀ m ∈ [choicePlan], m.Distinct) ∧
    (∀ m ∈ [choicePlan], m.Exposed .snake) ∧
    (∃ p, Package.load {} [choicePlan] = .ok p ∧ p.codecs = ⟨[wordsCodec .snake choicePlan], true⟩ ∧ p.Follows) ∧
    Codecs.Orders ⟨[wordsCodec .snake choicePlan], true⟩ (wordsCodec .snake choicePlan)
      ((wordsCodec .snake choicePlan).numbered [1, 2]) := by
  obtain ⟨after, hplans⟩ := plan_choice
  obtain ⟨places, cs, hplaces, hcs, hruns, horders⟩ :=
    oneof_members_in_order hplans zeroBased_choice distinct_choice {} exposed_choice
  have hcollect : Plan.collect [choice] [] = .ok [⟨choiceMessage, choice, []⟩] := collect_alone rfl (by decide)
  obtain rfl := Except.ok.inj (hplaces.symm.trans hcollect)
  obtain rfl := Except.ok.inj (ofPlans_choice.symm.trans hcs)
  rw [chosen_alone rfl (by decide)] at horders
  obtain ⟨p, hp⟩ : ∃ p, Package.load {} [choicePlan] = .ok p := ⟨_, rfl⟩
  refine ⟨⟨after, hplans⟩, zeroBased_choice, distinct_choice, exposed_choice,
    ⟨p, hp, hruns _ _ reached_planner (by decide) p hp⟩, ?_⟩
  cases horders with
  | cons horders _ => exact horders "kind" (by decide)

/-- The last declared of two members is selected, though the other one came last. -/
theorem oneof_selection_changes : (∃ after, Yields (Planner.plan [choice] []) planner [choicePlan] after) ∧
    Codecs.ofPlans {} [choicePlan] = .ok ⟨[wordsCodec .snake choicePlan], true⟩ ∧
    Plan.oneofNumbers ["M"] choiceMessage "kind" = [1, 2] ∧ ∃ v,
      Codecs.decode ⟨[wordsCodec .snake choicePlan], true⟩ (wordsCodec .snake choicePlan)
        ([secondRecord, firstRecord].flatMap Slice.bytes) = .ok v ∧
      Codecs.encode ⟨[wordsCodec .snake choicePlan], true⟩ (wordsCodec .snake choicePlan) v =
        .ok ([firstRecord, secondRecord].flatMap Slice.bytes) ∧
      ((occurring ((wordsCodec .snake choicePlan).numbered [1, 2]) [secondRecord, firstRecord]).getLast?.map
        Codec.Field.number) = some 1 ∧
      ((occurring ((wordsCodec .snake choicePlan).numbered [1, 2]) [firstRecord, secondRecord]).getLast?.map
        Codec.Field.number) = some 2 := by
  refine ⟨plan_choice, ofPlans_choice, rfl, .mapping [("b", .int 5), ("a", .int 7)],
    (Codecs.decode_eq_ok (tiles_flatMap _)).2 ⟨⟨[("b", .int 5), ("a", .int 7)], []⟩, rfl, rfl⟩, ?_, by decide,
    by decide⟩
  rw [Codecs.encode_eq]
  exact eq_ok_of_toOption (by decide +kernel)

end Sample

end MessageCodec
