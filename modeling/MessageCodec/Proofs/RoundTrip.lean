import MessageCodec.Proofs.Plan
import MessageCodec.Proofs.Trip

/-!
# Decoding undoes encoding

A canonical message holds under its keys just what decoding yields: an entry for every field that is
repeated or keeps no presence, elements as they are read, and canonical messages. It is encoded, and its
bytes are decoded to the same message.
-/

namespace MessageCodec

open Codec Wire

namespace Codec

def FieldType.Canonical : FieldType → Value → Prop
  | .element type, v => type.Decoded v
  | .message _, v => ∃ entries, v = .mapping entries

/-- What a canonical message holds for a field. Only a field with presence may be absent. -/
def Field.CanonicalEntry (f : Field) (held : Option Value) : Prop :=
  if f.repeated then ∃ items, held = some (.list items) ∧ ∀ item ∈ items, f.type.Canonical item
  else (∀ w, held = some w → f.type.Canonical w) ∧
    (f.presence = false → ∀ type, f.type = .element type → held ≠ none)

end Codec

namespace Codecs

/-- A message that has an entry for each of its fields and nothing else. -/
def CanonicalHere (c : Codec) (v : Value) : Prop :=
  ∃ entries : Entries, v = .mapping entries ∧
    (∀ f ∈ c.fields, ∃ held, f.CanonicalEntry held ∧ ∀ key ∈ f.outputs, entries.get? key = held) ∧
    ∀ key, (∀ f ∈ c.fields, key ∉ f.outputs) → entries.get? key = none

/-- A canonical message, at every depth. -/
def Canonical (cs : Codecs) : Codec → Value → Prop := cs.Everywhere CanonicalHere

theorem isNull_of_canonicalEntry {f : Field} {held : Option Value} (h : f.CanonicalEntry held) :
    ∀ w, held = some w → w.isNull = false := by
  rintro w rfl
  rw [Field.CanonicalEntry] at h
  split at h
  · obtain ⟨items, hitems, _⟩ := h
    rw [Option.some.inj hitems]
    rfl
  · have hw := h.1 w rfl
    cases htype : f.type with
    | element type =>
      rw [htype] at hw
      exact ElementType.isNull_of_decoded hw
    | message name =>
      rw [htype] at hw
      obtain ⟨entries, rfl⟩ := hw
      rfl

theorem canonical_of_mem_itemsOf {f : Field} {w item : Value} (h : f.CanonicalEntry (some w))
    (hitem : item ∈ f.itemsOf w) : f.type.Canonical item := by
  rw [Field.CanonicalEntry] at h
  rw [Field.itemsOf] at hitem
  split at h
  · rename_i hrepeated
    obtain ⟨items, hitems, hall⟩ := h
    rw [if_pos hrepeated, Option.some.inj hitems] at hitem
    exact hall item hitem
  · rename_i hsingular
    rw [if_neg hsingular, List.mem_singleton] at hitem
    exact hitem ▸ h.1 w rfl

/-- What a canonical message holds for a field comes back, if the messages in it do. -/
theorem stable_of_canonicalEntry {cs : Codecs} {f : Field} {held : Option Value} (h : f.CanonicalEntry held)
    (hchild : ∀ w item name, held = some w → item ∈ f.itemsOf w → f.type = .message name → f.Returns cs item) :
    f.Stable cs held := by
  refine ⟨fun hrepeated => ?_, fun hsingular hpresence type htype => ?_, fun w hw item hitem => ?_⟩
  · rw [Field.CanonicalEntry, if_pos hrepeated] at h
    obtain ⟨items, hitems, _⟩ := h
    exact ⟨items, hitems⟩
  · rw [Field.CanonicalEntry, if_neg (by rw [hsingular]; simp)] at h
    exact h.2 hpresence type htype
  · cases htype : f.type with
    | element type =>
      have hitem' := canonical_of_mem_itemsOf (hw ▸ h) hitem
      rw [htype] at hitem'
      rw [Field.Returns, htype]
      exact hitem'
    | message name => exact hchild w item name hw hitem htype

/-- A canonical message is encoded, and its bytes are decoded to the same message. -/
theorem decode_encode_canonical {cs : Codecs} (hclosed : cs.Closed) (hfill : cs.fillDefaults = true) {c : Codec}
    (hc : c.WellFormed cs) {v : Value} (hcanonical : cs.Canonical c v) (hfits : cs.Fits c v) :
    ∃ bytes u, cs.encode c v = .ok bytes ∧ cs.decode c bytes = .ok u ∧ u.Same v := by
  -- a message in a field is a proper part of the value, so the induction is on its size
  induction hn : sizeOf v using Nat.strongRecOn generalizing c v with
  | _ n ih =>
    obtain ⟨entries, rfl, hfields, hothers⟩ := hcanonical.here
    have hheld : ∀ f ∈ c.fields, f.CanonicalEntry ((Value.mapping entries).field? f.keys) ∧
        ∀ key ∈ f.outputs, entries.get? key = (Value.mapping entries).field? f.keys := by
      intro f hf
      obtain ⟨held, hentry, houtputs⟩ := hfields f hf
      have hfield : (Value.mapping entries).field? f.keys = held := by
        refine Field.field?_of_held (hc.fields f hf).read_back houtputs (fun key hkey hnot => ?_)
          (isNull_of_canonicalEntry hentry)
        exact hothers key fun g hg hout => hnot (hc.keys f hf g hg key hkey hout ▸ hout)
      rw [hfield]
      exact ⟨hentry, houtputs⟩
    have hstable : ∀ f ∈ c.fields, f.Stable cs ((Value.mapping entries).field? f.keys) := by
      intro f hf
      refine stable_of_canonicalEntry (hheld f hf).1 fun w item name hw hitem htype => ?_
      obtain ⟨inner, hinner⟩ := (hc.fields f hf).child name htype
      have hnull : item.isNull = false := by
        have hitem' := canonical_of_mem_itemsOf (hw ▸ (hheld f hf).1) hitem
        rw [htype] at hitem'
        obtain ⟨_, rfl⟩ := hitem'
        rfl
      have hsize : sizeOf item < n := by
        have := Value.sizeOf_lt_of_field? hw
        have := f.sizeOf_le_of_mem_itemsOf hitem
        omega
      obtain ⟨bytes, u, hbytes, hu, hsame⟩ := ih _ hsize (hclosed name inner hinner)
        (hcanonical.child hf htype hinner hw hitem hnull) (hfits.child hf htype hinner hw hitem hnull) rfl
      rw [Field.Returns, htype]
      exact ⟨hnull, inner, bytes, u, hinner, hbytes, hu, hsame⟩
    have hkept : unknownOfValue (.mapping entries) = .ok (([] : List Slice).flatMap Slice.bytes) := by
      rw [unknownOfValue, Value.field?_mapping_singleton, hothers unknownKey hc.unknown_outputs]
      rfl
    obtain ⟨rs, entries', hencode, hdecode, hfield, _, hother⟩ := trip hclosed hfill hc hc (fun _ hf => hf)
      hfits.here hkept (by simp) hstable
    refine ⟨_, _, hencode, hdecode, Value.same_mapping fun key => ?_⟩
    by_cases hkey : ∃ f ∈ c.fields, key ∈ f.outputs
    · obtain ⟨f, hf, hout⟩ := hkey
      rw [(hheld f hf).2 key hout]
      exact hfield f hf key hout
    · have hnot : ∀ f ∈ c.fields, key ∉ f.outputs := fun f hf hout => hkey ⟨f, hf, hout⟩
      rw [hothers key hnot, hother key hnot, if_neg (fun h => h.2 rfl)]
      exact .none

/-- Decoding undoes encoding: with names as keys and defaults filled in, the text of a canonical message is
decoded to the message, whatever well-formed plans there are, as long as every field has a name. -/
theorem decode_undoes_encode (settings : Settings) (hcase : settings.decodeCase = .snake)
    (hfill : settings.fillDefaults = true) {plans : List MessagePlan}
    (hplans : ∀ p ∈ plans, p.WellFormed plans ∧ p.Named) {m : MessagePlan} (hm : m.WellFormed plans)
    (hnamed : m.Named) :
    ∃ cs c, ofPlans settings plans = .ok cs ∧ codecOf settings m = .ok c ∧
      ∀ v, cs.Canonical c v → cs.Fits c v →
        ∃ text u, cs.encodeText c v = .ok text ∧ cs.decodeValue c (.text text) = .ok u ∧ u.Same v := by
  have hexposed : ∀ p : MessagePlan, p.WellFormed plans → p.Named → p.Exposed settings.decodeCase :=
    fun p hp hnames => hcase ▸ hp.exposed_snake hnames
  obtain ⟨cs, hcs, hdefaults, hclosed, hfound⟩ :=
    exists_closed (fun p hp => (hplans p hp).1) fun p hp => hexposed p (hplans p hp).1 (hplans p hp).2
  obtain ⟨c, hc, _, hready⟩ := exists_codecOf settings hm
  have hwf : c.WellFormed cs := codecOf_wellFormed hfound hm (hexposed m hm hnamed) hready
  refine ⟨cs, c, hcs, hc, fun v hcanonical hfits => ?_⟩
  obtain ⟨bytes, u, hbytes, hu, hsame⟩ :=
    decode_encode_canonical hclosed (hdefaults.trans hfill) hwf hcanonical hfits
  exact ⟨_, u, encodeText_eq_ok.2 ⟨bytes, hbytes, rfl⟩, (decodeValue_encodeText cs c bytes).trans hu, hsame⟩

end Codecs

namespace Sample

private theorem canonicalEntry_list {f : Field} (h : f.repeated = true) {items : List Value}
    (hitems : ∀ item ∈ items, f.type.Canonical item) : f.CanonicalEntry (some (.list items)) := by
  rw [Field.CanonicalEntry, if_pos h]
  exact ⟨items, rfl, hitems⟩

def postOf (id : Int) (tags : List String) (scores : List Int) (replies : List Value) : Value :=
  .mapping [("replies", .list replies), ("id", .text (String.ofList (Numeral.ofInt id))),
    ("tags", .list (tags.map .text)), ("scores", .list (scores.map .int))]

private theorem canonical_postOf {id : Int} {tags : List String} {scores : List Int} {replies : List Value}
    (hid : IsInt64 id) (hscores : ∀ n ∈ scores, IsInt32 n)
    (hreplies : ∀ reply ∈ replies, (∃ entries, reply = .mapping entries) ∧
      Codecs.Canonical ⟨[postCodec], true⟩ postCodec reply) :
    Codecs.Canonical ⟨[postCodec], true⟩ postCodec (postOf id tags scores replies) := by
  refine .of_children ⟨_, rfl, fun f hf => ?_, fun key hkey => ?_⟩
    fun f hf name inner w item htype hinner hw hitem _ => ?_
  · simp only [postCodec, post, postTypes, List.zipWith_cons_cons, List.zipWith_nil_left, List.mem_cons,
      List.not_mem_nil, or_false] at hf
    rcases hf with rfl | rfl | rfl | rfl | rfl
    · refine ⟨some (.text (String.ofList (Numeral.ofInt id))), ?_, fun key hkey => List.mem_singleton.1 hkey ▸ rfl⟩
      rw [Field.CanonicalEntry, if_neg (by decide)]
      exact ⟨fun w hw => Option.some.inj hw ▸ ⟨id, hid, rfl⟩, by simp⟩
    · refine ⟨some (.list (tags.map .text)), canonicalEntry_list rfl ?_,
        fun key hkey => List.mem_singleton.1 hkey ▸ rfl⟩
      intro item hitem
      obtain ⟨s, _, rfl⟩ := List.mem_map.1 hitem
      exact ⟨s, rfl⟩
    · refine ⟨some (.list (scores.map .int)), canonicalEntry_list rfl ?_,
        fun key hkey => List.mem_singleton.1 hkey ▸ rfl⟩
      intro item hitem
      obtain ⟨n, hn, rfl⟩ := List.mem_map.1 hitem
      exact ⟨n, hscores n hn, rfl⟩
    · refine ⟨none, ?_, fun key hkey => List.mem_singleton.1 hkey ▸ rfl⟩
      rw [Field.CanonicalEntry, if_neg (by decide)]
      exact ⟨by simp, fun hpresence => by simp [FieldPlan.ready] at hpresence⟩
    · refine ⟨some (.list replies), canonicalEntry_list rfl ?_, fun key hkey => List.mem_singleton.1 hkey ▸ rfl⟩
      exact fun item hitem => (hreplies item hitem).1
  · have hknown : ∀ key ∈ ["replies", "id", "tags", "scores"], ∃ f ∈ postCodec.fields, key ∈ f.outputs := by
      decide
    cases hget : Table.get? _ key with
    | none => rfl
    | some w =>
      obtain ⟨f, hf, hout⟩ := hknown key (List.mem_map_of_mem (f := Prod.fst) (Table.mem_of_get? hget))
      exact absurd hout (hkey f hf)
  · obtain ⟨hkeys, hrepeated⟩ := keys_of_message hf htype
    rw [hkeys] at hw
    obtain rfl := Option.some.inj ((show (postOf id tags scores replies).field? ["replies"] = some (.list replies)
      from rfl).symm.trans hw)
    rw [Field.itemsOf, if_pos hrepeated] at hitem
    rw [eq_postCodec hinner]
    exact (hreplies item hitem).2

def thread : Value := postOf (-3) ["é", ""] [300, 7] [postOf 0 [] [] []]

private theorem canonical_thread : Codecs.Canonical ⟨[postCodec], true⟩ postCodec thread := by
  have hreply : Codecs.Canonical ⟨[postCodec], true⟩ postCodec (postOf 0 [] [] []) :=
    canonical_postOf ⟨by decide, by decide⟩ (by simp) (by simp)
  refine canonical_postOf ⟨by decide, by decide⟩ (by simp [IsInt32]) fun reply h => ?_
  rw [List.mem_singleton.1 h]
  exact ⟨⟨_, rfl⟩, hreply⟩

private theorem fits_thread : Codecs.Fits ⟨[postCodec], true⟩ postCodec thread := by
  have hreply : Codecs.encode ⟨[postCodec], true⟩ postCodec (postOf 0 [] [] []) = .ok [] := by
    rw [Codecs.encode_eq]
    exact eq_ok_of_toOption (by decide +kernel)
  have hrecords : List.Forall₂ (fun f bs => Codecs.encodeField ⟨[postCodec], true⟩ thread f = .ok bs) postCodec.fields
      [[8, 5], [18, 2, 0xc3, 0xa9, 18, 0], [26, 3, 0xac, 2, 7], [], [130, 1, 0]] := by
    refine .cons ?_ (.cons ?_ (.cons ?_ (.cons rfl (.cons ?_ .nil))))
    · exact eq_ok_of_toOption (by decide +kernel)
    · exact eq_ok_of_toOption (by decide +kernel)
    · exact eq_ok_of_toOption (by decide +kernel)
    · have hreplies : Codecs.encodeValue ⟨[postCodec], true⟩ (post.fields[4].ready .snake (.message "forum.Post"))
          (.list [postOf 0 [] [] []]) = .ok [130, 1, 0] :=
        (Codecs.encodeValue_message rfl rfl).2 ⟨[[]], .cons hreply .nil, by decide +kernel⟩
      exact hreplies
  have hthread := Codecs.encode_eq_ok.2 ⟨_, [], hrecords, rfl, rfl⟩
  exact Codecs.fits_of_encode hthread (by decide)

/-- A thread comes back from its text. -/
theorem decode_undoes_encode_thread : (∀ p ∈ [post], p.WellFormed [post] ∧ p.Named) ∧ ∃ cs c text u,
    Codecs.ofPlans {} [post] = .ok cs ∧ Codecs.codecOf {} post = .ok c ∧ cs.Canonical c thread ∧
      cs.Fits c thread ∧ cs.encodeText c thread = .ok text ∧ cs.decodeValue c (.text text) = .ok u ∧
      u.Same thread := by
  have hplans : ∀ p ∈ [post], p.WellFormed [post] ∧ p.Named :=
    List.forall_mem_singleton.2 ⟨post_wellFormed, post_named⟩
  obtain ⟨cs, c, hcs, hc, hall⟩ := Codecs.decode_undoes_encode {} rfl rfl hplans post_wellFormed post_named
  obtain rfl := Except.ok.inj (ofPlans_post.symm.trans hcs)
  obtain rfl := Except.ok.inj (codecOf_post.symm.trans hc)
  obtain ⟨text, u, htext, hu, hsame⟩ := hall thread canonical_thread fits_thread
  exact ⟨hplans, _, _, text, u, hcs, hc, canonical_thread, fits_thread, htext, hu, hsame⟩

/-- A message whose only field has no name. -/
def nameless : MessagePlan where
  name := "Nameless"
  fullName := "forum.Nameless"
  symbol := "Nameless"
  fields := [wordField ""]

theorem nameless_wellFormed : nameless.WellFormed [nameless] where
  fields := List.forall_mem_singleton.2 (wordField_wellFormed _ _)
  numbers := by decide
  stems := by decide
  keys := by decide
  unknown := by decide

def namelessCodec : Codec :=
  ⟨"forum.Nameless", "Nameless", nameless.fields.map fun f => f.ready .snake (.element (.scalar .fixed32))⟩

private theorem canonical_nameless :
    Codecs.Canonical ⟨[namelessCodec], true⟩ namelessCodec (.mapping [("", .int 5)]) := by
  refine .of_children ⟨_, rfl, fun f hf => ?_, fun key hkey => ?_⟩ fun f hf name inner w item htype => ?_
  · obtain rfl := List.mem_singleton.1 hf
    refine ⟨some (.int 5), ?_, fun key hkey => List.mem_singleton.1 hkey ▸ rfl⟩
    rw [Field.CanonicalEntry, if_neg (by decide)]
    exact ⟨fun w hw => Option.some.inj hw ▸ ⟨5, by simp [IsUInt32], rfl⟩, by simp⟩
  · have hne : key ≠ "" := fun heq => hkey _ List.mem_cons_self (heq ▸ List.mem_cons_self)
    simp [Table.get?, hne.symm]
  · obtain rfl := List.mem_singleton.1 hf
    simp [FieldPlan.ready] at htype

/-- A field without a name has no key to be looked up by: its value is not written, and the zero of its type
comes back. -/
theorem nameless_is_lost : (∀ p ∈ [nameless], p.WellFormed [nameless]) ∧ ∃ cs c v u,
    Codecs.ofPlans {} [nameless] = .ok cs ∧ Codecs.codecOf {} nameless = .ok c ∧ cs.Canonical c v ∧ cs.Fits c v ∧
      cs.encodeText c v = .ok "" ∧ cs.decodeValue c (.text "") = .ok u ∧ ¬ u.Same v := by
  have hencode : Codecs.encode ⟨[namelessCodec], true⟩ namelessCodec (.mapping [("", .int 5)]) = .ok [] := by
    rw [Codecs.encode_eq]
    rfl
  refine ⟨List.forall_mem_singleton.2 nameless_wellFormed, ⟨[namelessCodec], true⟩, namelessCodec,
    .mapping [("", .int 5)], .mapping [("", .int 0)], rfl, rfl, canonical_nameless,
    Codecs.fits_of_encode hencode (by decide), ?_, ?_, ?_⟩
  · exact Codecs.encodeText_eq_ok.2 ⟨[], hencode, rfl⟩
  · show Codecs.decode ⟨[namelessCodec], true⟩ namelessCodec [] = _
    rw [Codecs.decode, Codecs.gather_eq_turn]
    rfl
  · intro hsame
    cases hsame with
    | mapping _ hentries => cases hentries "" (.int 0) (.int 5) rfl rfl

end Sample

end MessageCodec
