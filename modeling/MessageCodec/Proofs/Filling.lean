import MessageCodec.Proofs.Lockstep
import MessageCodec.Proofs.Normal

/-!
# Messages with and without their defaults

The same bytes are decoded twice, once with absent fields filled in and once without. The two decoders run in
step, so they fail together, and every key that belongs to one field is there without defaults just when the
field was on the wire. What is added are the defaults of fields that were not.
-/

namespace MessageCodec

open Codec Wire

/-! ### Filling in -/

namespace Codec

theorem fillField_get?_cases (entries : Entries) (f : Field) (key : String) :
    (fillField entries f).get? key = entries.get? key ∨
      key ∈ f.outputs ∧ (∀ first ∈ f.outputs.head?, entries.get? first = none) ∧
        ∃ v, f.fallback = some v ∧ (fillField entries f).get? key = some v := by
  rw [Codecs.fillField_eq]
  cases f.fallback with
  | none => exact .inl rfl
  | some v =>
    rw [Option.map_some, Option.getD_some]
    cases houtputs : f.outputs with
    | nil => exact .inl rfl
    | cons first rest =>
      rw [Entries.get?_fillDefault]
      split
      · rename_i hfill
        exact .inr ⟨hfill.1, by simpa using hfill.2, v, rfl, rfl⟩
      · exact .inl rfl

/-- A key of one field is left alone, or holds what the field falls back to. -/
theorem foldl_fillField_own {fields : List Field} {f : Field} {key : String}
    (hown : ∀ h ∈ fields, key ∈ h.outputs → h = f) (entries : Entries) :
    (fields.foldl fillField entries).get? key = entries.get? key ∨
      ∃ v, f.fallback = some v ∧ (fields.foldl fillField entries).get? key = some v := by
  induction fields generalizing entries with
  | nil => exact .inl rfl
  | cons h fields ih =>
    rw [List.foldl_cons]
    obtain hsame | hfilled := ih (fun g hg => hown g (List.mem_cons_of_mem _ hg)) (fillField entries h)
    · rw [hsame]
      obtain hsame' | ⟨hkey, -, hv⟩ := fillField_get?_cases entries h key
      · exact .inl hsame'
      · exact .inr (hown h List.mem_cons_self hkey ▸ hv)
    · exact .inr hfilled

/-- A field whose first key is there is not filled in. -/
theorem foldl_fillField_of_present {fields : List Field} {f : Field} {key : String}
    (hown : ∀ h ∈ fields, key ∈ h.outputs → h = f) {entries : Entries}
    (hpresent : ∃ first ∈ f.outputs.head?, (entries.get? first).isSome = true) :
    (fields.foldl fillField entries).get? key = entries.get? key := by
  induction fields generalizing entries with
  | nil => rfl
  | cons h fields ih =>
    obtain ⟨first, hfirst, hsome⟩ := hpresent
    have hstill : ((fillField entries h).get? first).isSome = true := by
      obtain hsame | ⟨-, -, v, -, hv⟩ := fillField_get?_cases entries h first
      · rwa [hsame]
      · rw [hv]
        rfl
    rw [List.foldl_cons, ih (fun g hg => hown g (List.mem_cons_of_mem _ hg)) ⟨first, hfirst, hstill⟩]
    obtain hsame | ⟨hkey, habsent, -⟩ := fillField_get?_cases entries h key
    · exact hsame
    · rw [hown h List.mem_cons_self hkey] at habsent
      rw [habsent first hfirst] at hsome
      cases hsome

/-- An absent field whose keys are its own is filled in. -/
theorem foldl_fillField_of_absent {fields : List Field} {f : Field} (hf : f ∈ fields)
    (hown : ∀ h ∈ fields, ∀ key ∈ f.outputs, key ∈ h.outputs → h = f) {entries : Entries}
    (habsent : ∀ key ∈ f.outputs, entries.get? key = none) {key : String} (hkey : key ∈ f.outputs) :
    (fields.foldl fillField entries).get? key = f.fallback := by
  induction fields generalizing entries with
  | nil => cases hf
  | cons h fields ih =>
    have hrest : ∀ g ∈ fields, ∀ key ∈ f.outputs, key ∈ g.outputs → g = f :=
      fun g hg => hown g (List.mem_cons_of_mem _ hg)
    rw [List.foldl_cons]
    by_cases heq : h = f
    · subst heq
      obtain ⟨first, rest, houtputs⟩ := List.exists_cons_of_ne_nil (List.ne_nil_of_mem hkey)
      have hfilled := Codecs.fillField_get? houtputs habsent key hkey
      obtain hsame | ⟨v, hv, hlater⟩ :=
        foldl_fillField_own (fun g hg => hrest g hg key hkey) (fillField entries h)
      · rw [hsame, hfilled, Option.none_or]
      · rw [hlater, hv]
    · refine ih ((List.mem_cons.1 hf).resolve_left fun hsame => heq hsame.symm) hrest ?_
      intro other hother
      rw [get?_fillField fun hmem => heq (hown h List.mem_cons_self other hother hmem), habsent other hother]

end Codec

/-! ### Twins -/

/-- The same codecs, filling in defaults or not. -/
def Codecs.filling (cs : Codecs) (fill : Bool) : Codecs := { cs with fillDefaults := fill }

theorem Codec.Field.Steady.filling {cs : Codecs} {f : Field} (h : f.Steady cs) (fill : Bool) :
    f.Steady (cs.filling fill) :=
  ⟨h.sound, h.child, h.default⟩

/-- Values of a field that are decoded without and with defaults: the same element, or a message from the same
block, of fewer bytes than some number. -/
def Codec.Field.Twin (cs : Codecs) (bound : Nat) (f : Field) (u u' : Value) : Prop :=
  match f.type with
  | .element _ => u' = u
  | .message name => ∃ inner block, cs.codec? name = some inner ∧ block.length < bound ∧
      (cs.filling false).decode inner block = .ok u ∧ (cs.filling true).decode inner block = .ok u'

namespace Codecs

private theorem exists_mapping_of_decode {cs : Codecs} {c : Codec} {w : List UInt8} {v : Value}
    (h : cs.decode c w = .ok v) :
    ∃ entries, v = .mapping entries := by
  obtain ⟨g, -, heq⟩ := bind_eq_ok.1 h
  exact ⟨_, (Except.ok.inj heq).symm⟩

variable {cs : Codecs} {bound : Nat}

theorem isList_of_twin (f : Field) (u u' : Value) (h : f.Twin cs bound u u') : u'.isList = u.isList := by
  unfold Field.Twin at h
  split at h
  · rw [h]
  · obtain ⟨inner, block, -, -, hu, hu'⟩ := h
    obtain ⟨xs, rfl⟩ := exists_mapping_of_decode hu
    obtain ⟨ys, rfl⟩ := exists_mapping_of_decode hu'
    rfl

theorem isNull_of_twin {f : Field} {u u' : Value} (h : f.Twin cs bound u u') : u'.isNull = u.isNull := by
  unfold Field.Twin at h
  split at h
  · rw [h]
  · obtain ⟨inner, block, -, -, hu, hu'⟩ := h
    rw [isNull_of_decode hu, isNull_of_decode hu']

theorem isNull_of_alike {f : Field} {v v' : Value} (h : f.Alike (f.Twin cs bound) v v') : v'.isNull = v.isNull := by
  unfold Field.Alike at h
  split at h
  · obtain ⟨us, us', rfl, rfl, -⟩ := h
    rfl
  · exact isNull_of_twin h

theorem paired_twin {c : Codec} (hblocks : ∀ name inner, cs.codec? name = some inner → ∀ block : List UInt8,
      block.length < bound →
      Matches (fun _ _ => True) ((cs.filling false).decode inner block) ((cs.filling true).decode inner block))
    {r : Slice} (hr : r.payload.length ≤ bound) :
    Paired (Field.Twin cs bound) c (cs.filling false) (cs.filling true) r := by
  intro f arm harm
  have harm' := (arm?_some harm).2
  have hsame {type : ElementType} (htype : f.type = .element type) (us : List Value) :
      List.Forall₂ (f.Twin cs bound) us us := by
    rw [List.forall₂_same]
    intro u _
    rw [Field.Twin, htype]
  cases arm with
  | packed type => exact .ok (hsame (Field.type_of_arm?_element (.inl harm')) _)
  | single type => exact .ok (hsame (Field.type_of_arm?_element (.inr harm')) _)
  | message name =>
    have htype := Field.type_of_arm?_message harm'
    rw [valuesOf, valuesOf]
    have hchild : (cs.filling true).child name = (cs.filling false).child name := rfl
    rw [hchild]
    cases hinner : (cs.filling false).child name with
    | error e => exact .error e
    | ok inner =>
      have hfound : cs.codec? name = some inner := child_eq_ok.1 hinner
      rw [ok_bind, ok_bind]
      cases hread : readDelimited r.payload with
      | none => exact .ok .nil
      | some found =>
        obtain ⟨block, rest⟩ := found
        have hlt : block.length < bound := by
          have := readDelimited_lt hread
          omega
        dsimp only
        have hmatches := hblocks name inner hfound block hlt
        cases hu : (cs.filling false).decode inner block with
        | error e =>
          rw [hu] at hmatches
          generalize (cs.filling true).decode inner block = outcome at hmatches
          cases hmatches
          exact .error e
        | ok u =>
          obtain ⟨u', hu', -⟩ := hmatches.exists_ok hu
          rw [hu', ok_bind, ok_bind]
          refine .ok (.cons ?_ .nil)
          rw [Field.Twin, htype]
          exact ⟨inner, block, hfound, hlt, hu, hu'⟩

/-! ### Two messages from the same bytes -/

/-- A message with defaults next to the one without, both decoded from some records. Of the keys of one field,
those of fields on the wire hold the same in both; the others are missing without defaults, and hold nothing but
the default of their field with them. All other keys are alike. -/
structure Completes (cs : Codecs) (c : Codec) (bound : Nat) (rs : List Slice) (sparse full : Entries) : Prop where
  present : ∀ f ∈ c.fields, ∀ key ∈ f.outputs, c.Own key →
    ((sparse.get? key).isSome = true ↔ ∃ r ∈ rs, f.Takes r)
  held : ∀ f ∈ c.fields, ∀ key ∈ f.outputs, c.Own key → ∀ v, sparse.get? key = some v →
    ∃ v', full.get? key = some v' ∧ f.Alike (f.Twin cs bound) v v'
  added : ∀ f ∈ c.fields, ∀ key ∈ f.outputs, c.Own key → ∀ v, sparse.get? key = none → full.get? key = some v →
    f.fallback = some v
  filled : ∀ f ∈ c.fields, (∀ key ∈ f.outputs, c.Own key) → (¬ ∃ r ∈ rs, f.Takes r) →
    ∀ key ∈ f.outputs, full.get? key = f.fallback
  other : ∀ key, (∀ f ∈ c.fields, key ∉ f.outputs) →
    full.get? key = sparse.get? key ∧ (key ≠ unknownKey → sparse.get? key = none)

theorem completes_of_inStep {c : Codec} (hunknown : ∀ f ∈ c.fields, unknownKey ∉ f.outputs) {w : List UInt8}
    {rs : List Slice} (htiles : Tiles w rs) {g g' : Gathered} (hg : rs.foldlM ((cs.filling false).consume c) {} = .ok g)
    (hg' : rs.foldlM ((cs.filling true).consume c) {} = .ok g') (h : InStep (Field.Twin cs bound) c rs g g') :
    cs.Completes c bound rs (g.entries.attachUnknown g.unknown)
      ((c.fields.foldl fillField g'.entries).attachUnknown g'.unknown) := by
  have hne : ∀ f ∈ c.fields, ∀ key ∈ f.outputs, key ≠ unknownKey := by
    intro f hf key hkey heq
    exact hunknown f hf (heq ▸ hkey)
  refine ⟨?_, ?_, ?_, ?_, ?_⟩
  · intro f hf key hkey hown
    rw [Entries.get?_attachUnknown_of_ne (hne f hf key hkey)]
    exact ⟨h.taken f hf key hkey hown, fun htakes => h.present f hf htakes key hkey⟩
  · intro f hf key hkey hown v hv
    rw [Entries.get?_attachUnknown_of_ne (hne f hf key hkey)] at hv
    rw [Entries.get?_attachUnknown_of_ne (hne f hf key hkey)]
    -- the field was on the wire, so its first key is there in both and nothing is filled in
    have htakes := h.taken f hf key hkey hown (by rw [hv]; rfl)
    obtain ⟨first, rest, houtputs⟩ := List.exists_cons_of_ne_nil (List.ne_nil_of_mem hkey)
    have hfirst : (g'.entries.get? first).isSome = true := by
      have hsome := h.present f hf htakes first (houtputs ▸ List.mem_cons_self)
      obtain ⟨hnone, -⟩ | ⟨u, u', hu, hu', -⟩ := eq_none_or_of_rel (h.shape first)
      · rw [hnone] at hsome
        cases hsome
      · rw [hu']
        rfl
    rw [foldl_fillField_of_present (fun g hg hkey' => hown g hg f hf hkey' hkey) ⟨first, by rw [houtputs]; rfl, hfirst⟩]
    obtain ⟨hnone, -⟩ | ⟨u, u', hu, hu', halike⟩ := eq_none_or_of_rel (h.alike f hf key hkey hown)
    · rw [hv] at hnone
      cases hnone
    · obtain rfl := Option.some.inj (hu.symm.trans hv)
      exact ⟨u', hu', halike⟩
  · intro f hf key hkey hown v hnone hv
    rw [Entries.get?_attachUnknown_of_ne (hne f hf key hkey)] at hnone
    rw [Entries.get?_attachUnknown_of_ne (hne f hf key hkey)] at hv
    obtain hsame | ⟨u, hu, hv'⟩ := foldl_fillField_own (fun g hg hkey' => hown g hg f hf hkey' hkey) g'.entries
    · obtain ⟨-, hnone'⟩ | ⟨u, u', hu, -, -⟩ := eq_none_or_of_rel (h.shape key)
      · rw [hsame, hnone'] at hv
        cases hv
      · rw [hnone] at hu
        cases hu
    · rw [hu, ← hv, hv']
  · intro f hf hown hwire key hkey
    rw [Entries.get?_attachUnknown_of_ne (hne f hf key hkey)]
    refine foldl_fillField_of_absent hf (fun g hg other hother hmem => hown other hother g hg f hf hmem hother) ?_ hkey
    intro other hother
    obtain ⟨-, hnone⟩ | ⟨u, u', hu, -, -⟩ := eq_none_or_of_rel (h.shape other)
    · exact hnone
    · exact absurd (h.taken f hf other hother (hown other hother) (by rw [hu]; rfl)) hwire
  · intro key hkey
    have hsparse' := decode_member?_of_not_output htiles hkey ((decode_eq_ok htiles).2 ⟨g, hg, rfl⟩)
    have hfull' := decode_member?_of_not_output htiles hkey ((decode_eq_ok htiles).2 ⟨g', hg', rfl⟩)
    exact ⟨hfull'.trans hsparse'.symm, fun hne => hsparse'.trans (if_neg fun hand => hne hand.1)⟩

end Codecs

end MessageCodec
