import MessageCodec.Proofs.Evolution
import MessageCodec.Proofs.Lookup

/-!
# Sequences of records

What a message is decoded to, seen as a function of its sequence of records. Bytes that are cut off give the
message of the records that are still whole; bytes put one after the other give the two messages merged, each
field on its own; and only the order among the records of one field, and among those that are kept, counts.
-/

namespace MessageCodec

open Codec Wire

/-! ### Merged messages -/

/-- The key of kept records holds some bytes, or is missing where there are none. -/
def Entries.Keeps (entries : Entries) (bytes : List UInt8) : Prop :=
  entries.get? unknownKey = if bytes = [] then none else some (.text (Base64.encodeText bytes))

namespace Codec

/-- A message put together from two. A key holds what it holds in the second message, or else in the first; where
a repeated field is decoded to it, both lists one after the other; and under the key of kept records those of
both. -/
structure Merges (c : Codec) (first second both : Entries) : Prop where
  single : ∀ key, key ≠ unknownKey → (∀ f ∈ c.fields, f.repeated = true → key ∉ f.outputs) →
    both.get? key = (second.get? key).or (first.get? key)
  repeated : ∀ f ∈ c.fields, f.repeated = true → ∀ key ∈ f.outputs, ∃ xs ys : Option (List Value),
    first.get? key = xs.map .list ∧ second.get? key = ys.map .list ∧
      both.get? key = (Option.merge (· ++ ·) xs ys).map .list
  unknown : ∃ kept kept', first.Keeps kept ∧ second.Keeps kept' ∧ both.Keeps (kept ++ kept')

/-- A message that may lack the end of what another one holds, and holds nothing else. -/
structure Shortens (c : Codec) (short long : Entries) : Prop where
  present : ∀ key, (short.get? key).isSome = true → (long.get? key).isSome = true
  repeated : ∀ f ∈ c.fields, f.repeated = true → ∀ key ∈ f.outputs, ∀ v, short.get? key = some v →
    ∃ xs ys, v = .list xs ∧ long.get? key = some (.list (xs ++ ys))
  unknown : ∃ kept more, short.Keeps kept ∧ long.Keeps (kept ++ more)

theorem Merges.shortens {c : Codec} {first second both : Entries} (h : c.Merges first second both) :
    c.Shortens first both := by
  obtain ⟨kept, kept', hkept, -, hboth⟩ := h.unknown
  refine ⟨?_, ?_, kept, kept', hkept, hboth⟩
  · intro key hsome
    by_cases hunknown : key = unknownKey
    · rw [hunknown, hkept] at hsome
      rw [hunknown, hboth, if_neg]
      · rfl
      · intro hnil
        rw [if_pos (List.append_eq_nil_iff.1 hnil).1] at hsome
        cases hsome
    by_cases hrepeated : ∃ f ∈ c.fields, f.repeated = true ∧ key ∈ f.outputs
    · obtain ⟨f, hf, hrepeated, hkey⟩ := hrepeated
      obtain ⟨xs, ys, hxs, -, hmerge⟩ := h.repeated f hf hrepeated key hkey
      rw [hxs, Option.isSome_map] at hsome
      obtain ⟨list, rfl⟩ := Option.isSome_iff_exists.1 hsome
      rw [hmerge]
      cases ys <;> rfl
    · push Not at hrepeated
      rw [h.single key hunknown hrepeated, Option.isSome_or, hsome, Bool.or_true]
  · intro f hf hrepeated key hkey v hv
    obtain ⟨xs, ys, hxs, -, hmerge⟩ := h.repeated f hf hrepeated key hkey
    rw [hxs] at hv
    obtain ⟨list, rfl, rfl⟩ := Option.map_eq_some_iff.1 hv
    refine ⟨list, ys.getD [], rfl, ?_⟩
    rw [hmerge]
    cases ys with
    | none => rw [Option.getD_none, List.append_nil]; rfl
    | some more => rfl

end Codec

namespace Codecs

private theorem Describes.keeps {cs : Codecs} {c : Codec} (hc : c.Placed) {rs : List Slice} {entries : Entries}
    (h : cs.Describes c rs entries) : entries.Keeps (c.kept rs) := by
  rw [Entries.Keeps, h.other unknownKey hc.unknown_outputs]
  by_cases hnil : c.kept rs = []
  · rw [if_pos hnil, if_neg (fun hand => hand.2 hnil)]
  · rw [if_neg hnil, if_pos ⟨rfl, hnil⟩]

private theorem Describes.get?_of_sparse {cs : Codecs} (hfill : cs.fillDefaults = false) {c : Codec} {rs : List Slice}
    {entries : Entries} (h : cs.Describes c rs entries) {f : Field} (hf : f ∈ c.fields) {key : String}
    (hkey : key ∈ f.outputs) : entries.get? key = f.gathered (cs.hits f rs) := by
  rw [h.field f hf key hkey, Field.entry, hfill, if_neg (by simp), Option.or_none]

/-- Records one after the other describe the merged message. -/
theorem merges_of_describes {cs : Codecs} (hfill : cs.fillDefaults = false) {c : Codec} (hc : c.Placed)
    {rs rs' : List Slice} {first second both : Entries} (h : cs.Describes c rs first) (h' : cs.Describes c rs' second)
    (hboth : cs.Describes c (rs ++ rs') both) : c.Merges first second both := by
  refine ⟨?_, ?_, c.kept rs, c.kept rs', h.keeps hc, h'.keeps hc, kept_append c rs rs' ▸ hboth.keeps hc⟩
  · intro key hunknown hsingle
    by_cases hfield : ∃ f ∈ c.fields, key ∈ f.outputs
    · obtain ⟨f, hf, hkey⟩ := hfield
      have hsingular : f.repeated = false := by
        rw [← Bool.not_eq_true]
        exact fun hrepeated => hsingle f hf hrepeated hkey
      rw [hboth.get?_of_sparse hfill hf hkey, h.get?_of_sparse hfill hf hkey, h'.get?_of_sparse hfill hf hkey,
        hits_append, Field.gathered_append hsingular]
    · push Not at hfield
      rw [hboth.other key hfield, h.other key hfield, h'.other key hfield]
      simp [hunknown]
  · intro f hf hrepeated key hkey
    refine ⟨joined (cs.hits f rs), joined (cs.hits f rs'), ?_, ?_, ?_⟩
    · rw [h.get?_of_sparse hfill hf hkey, Field.gathered_of_repeated hrepeated]
    · rw [h'.get?_of_sparse hfill hf hkey, Field.gathered_of_repeated hrepeated]
    · rw [hboth.get?_of_sparse hfill hf hkey, Field.gathered_of_repeated hrepeated, hits_append, joined_append]

theorem Readable.append {cs : Codecs} {c : Codec} {rs rs' : List Slice} (h : cs.Readable c rs)
    (h' : cs.Readable c rs') : cs.Readable c (rs ++ rs') := by
  intro r hr
  rcases List.mem_append.1 hr with hr | hr
  · exact h r hr
  · exact h' r hr

/-! ### Plans -/

/-- Where every plan tells its fields apart and holds only messages that have plans, all bytes are decoded. -/
theorem exists_decode_of_plans {settings : Settings} {plans : List MessagePlan} {cs : Codecs}
    (hcs : ofPlans settings plans = .ok cs) {m : MessagePlan} {c : Codec} (hc : codecOf settings m = .ok c)
    (hplans : ∀ p ∈ m :: plans, p.Separable settings.decodeCase ∧ p.Linked plans) (w : List UInt8) :
    ∃ entries, cs.decode c w = .ok (.mapping entries) := by
  have hready : ∀ p ∈ m :: plans, ∀ inner, codecOf settings p = .ok inner → inner.Placed ∧ inner.Linked cs := by
    intro p hp inner hinner
    obtain ⟨hseparable, hlinked⟩ := hplans p hp
    exact ⟨placed_of_separable hseparable (forall₂_ready hseparable.stems hinner),
      linked_of_codecOf hcs hlinked hinner⟩
  obtain ⟨hplaced, hlinked⟩ := hready m List.mem_cons_self c hc
  obtain ⟨v, hv⟩ := exists_decode (fun name inner hinner => by
    obtain ⟨p, hp, hcodec⟩ := exists_plan hcs hinner
    exact hready p (List.mem_cons_of_mem m hp) inner hcodec) hplaced hlinked w
  obtain ⟨rs, htiles⟩ := exists_tiles w
  obtain ⟨entries, rfl, -⟩ := describes_of_decode hplaced htiles hv
  exact ⟨entries, hv⟩

/-- Bytes are decoded without defaults, and so are those of them that are left when the end is cut off. What the
second message holds is the beginning of what the first one holds, key by key, and it is the message of the
records that are whole: the first that is not adds nothing. All bytes are decoded where the plans of the messages
that are held are there and tell their fields apart too. -/
theorem decode_take {settings : Settings} (hfill : settings.fillDefaults = false) {plans : List MessagePlan}
    {cs : Codecs} (hcs : ofPlans settings plans = .ok cs) {m : MessagePlan} (hm : m.Separable settings.decodeCase)
    {c : Codec} (hc : codecOf settings m = .ok c) (w : List UInt8) (k : Nat) :
    ((∀ p ∈ m :: plans, p.Separable settings.decodeCase ∧ p.Linked plans) →
      ∃ long, cs.decodeValue c (.bytes w) = .ok (.mapping long)) ∧
    ∀ v, cs.decodeValue c (.bytes w) = .ok v →
      ∃ short long, v = .mapping long ∧ cs.decodeValue c (.bytes (w.take k)) = .ok (.mapping short) ∧
        c.Shortens short long ∧
        ∃ done todo, Tiles w (done ++ todo) ∧ Tiles (w.take k) done ∧
          (∀ r ∈ todo.head?, k < (done.flatMap Slice.bytes).length + r.bytes.length) ∧
          ∃ g g', done.foldlM (cs.consume c) {} = .ok g ∧ Value.mapping short = finish false c g ∧
            todo.foldlM (cs.consume c) g = .ok g' ∧ v = finish false c g' := by
  refine ⟨fun hplans => exists_decode_of_plans hcs hc hplans w, fun v hv => ?_⟩
  have hplaced := placed_of_separable hm (forall₂_ready hm.stems hc)
  have hsparse : cs.fillDefaults = false := (ofPlans_eq_ok.1 hcs).1.trans hfill
  obtain ⟨rs, htiles⟩ := exists_tiles w
  obtain ⟨done, todo, rfl, hdone, hnext⟩ := htiles.take k
  have hreadable := readable_of_decode htiles hv
  have hreadable' : cs.Readable c done := fun r hr => hreadable r (List.mem_append_left todo hr)
  obtain ⟨long, rfl, hlong⟩ := describes_of_decode hplaced htiles hv
  obtain ⟨short, hshort, hdescribes⟩ := decode_of_readable hplaced hdone hreadable'
  -- the records beyond the cut make a message too, and the whole is the merge of the two
  obtain ⟨rest, -, hrest⟩ := decode_of_readable hplaced (tiles_flatMap todo)
    fun r hr => hreadable r (List.mem_append_right done hr)
  refine ⟨short, long, rfl, hshort, (merges_of_describes hsparse hplaced hdescribes hrest hlong).shortens,
    done, todo, htiles, hdone, hnext, ?_⟩
  obtain ⟨g, hg, hfinish⟩ := (decode_eq_ok hdone).1 hshort
  obtain ⟨g', hg', hfinish'⟩ := (decode_eq_ok htiles).1 hv
  rw [List.foldlM_append, hg, ok_bind] at hg'
  rw [hsparse] at hfinish hfinish'
  exact ⟨g, g', hg, hfinish, hg', hfinish'⟩

end Codecs

namespace Sample

private theorem post_separable : post.Separable .snake := (post_wellFormed.apart post_exposed).separable

private theorem post_linked : post.Linked [post] := by
  intro f hf hkind
  simp only [post, List.mem_cons, List.not_mem_nil, or_false] at hf
  rcases hf with rfl | rfl | rfl | rfl | rfl
  · cases hkind
  · cases hkind
  · cases hkind
  · cases hkind
  · exact ⟨post, List.mem_singleton_self post, rfl⟩

/-- The cut is in the middle of the reply. -/
theorem decode_take_mixed : post.Separable .snake ∧ ∃ cs c short long,
    Codecs.ofPlans { fillDefaults := false } [post] = .ok cs ∧ Codecs.codecOf { fillDefaults := false } post = .ok c ∧
      cs.decodeValue c (.bytes mixed) = .ok (.mapping long) ∧
      cs.decodeValue c (.bytes (mixed.take 10)) = .ok (.mapping short) ∧ c.Shortens short long := by
  have hplans : ∀ p ∈ [post, post], p.Separable .snake ∧ p.Linked [post] := by
    intro p hp
    rw [List.mem_pair, or_self] at hp
    subst hp
    exact ⟨post_separable, post_linked⟩
  have hcs : Codecs.ofPlans { fillDefaults := false } [post] = .ok ⟨[postCodec], false⟩ := rfl
  have hc : Codecs.codecOf { fillDefaults := false } post = .ok postCodec := rfl
  obtain ⟨hdecode, htake⟩ := Codecs.decode_take rfl hcs post_separable hc mixed 10
  obtain ⟨long, hlong⟩ := hdecode hplans
  obtain ⟨short, _, heq, hshort, hshortens, -⟩ := htake _ hlong
  obtain rfl := Value.mapping.inj heq
  exact ⟨post_separable, _, _, short, long, hcs, hc, hlong, hshort, hshortens⟩

end Sample

/-! ### Bytes that are used up -/

namespace Codecs

/-- The loop takes turns until no byte is left. -/
inductive UsesUp (cs : Codecs) (c : Codec) : Gathered → List UInt8 → Prop
  | done (g : Gathered) : UsesUp cs c g []
  | turn {g g' : Gathered} {data rest : List UInt8} (hturn : cs.turn c g data = some (.ok g', rest))
      (hrest : UsesUp cs c g' rest) : UsesUp cs c g data

theorem usesUp_iff {cs : Codecs} {c : Codec} {g : Gathered} {w : List UInt8} : cs.UsesUp c g w ↔
    ∃ rs : List Slice, w = rs.flatMap Slice.bytes ∧ ∃ g', rs.foldlM (cs.consume c) g = .ok g' := by
  constructor
  · intro h
    induction h with
    | done g => exact ⟨[], rfl, g, rfl⟩
    | @turn g mid data rest hturn _ ih =>
      obtain ⟨r, rfl⟩ := exists_slice_of_turn hturn
      obtain ⟨rs, rfl, g', hg'⟩ := ih
      rw [turn_slice, Option.some.injEq, Prod.mk.injEq] at hturn
      refine ⟨r :: rs, rfl, g', ?_⟩
      rw [List.foldlM_cons, hturn.1, ok_bind, hg']
  · intro ⟨rs, hw, g', hg'⟩
    subst hw
    induction rs generalizing g with
    | nil => exact .done g
    | cons r rs ih =>
      rw [List.foldlM_cons] at hg'
      obtain ⟨mid, hstep, hrest⟩ := bind_eq_ok.1 hg'
      exact .turn (by rw [List.flatMap_cons, turn_slice, hstep]) (ih hrest)

theorem UsesUp.readable {cs : Codecs} {c : Codec} {w : List UInt8} (h : cs.UsesUp c {} w) :
    ∃ rs : List Slice, w = rs.flatMap Slice.bytes ∧ cs.Readable c rs := by
  obtain ⟨rs, hw, g, hg⟩ := usesUp_iff.1 h
  exact ⟨rs, hw, readable_of_foldlM hg⟩

/-- Bytes that the loop uses up are followed by others. Without defaults they are decoded together to the two
messages merged; a message in a field is replaced and not merged. -/
theorem decode_append {settings : Settings} (hfill : settings.fillDefaults = false) {plans : List MessagePlan}
    {cs : Codecs} (hcs : ofPlans settings plans = .ok cs) {m : MessagePlan} (hm : m.Separable settings.decodeCase)
    {c : Codec} (hc : codecOf settings m = .ok c) {w : List UInt8} (hw : cs.UsesUp c {} w) :
    ∃ first, cs.decodeValue c (.bytes w) = .ok (.mapping first) ∧ ∀ w' : List UInt8,
      ((∀ p ∈ m :: plans, p.Separable settings.decodeCase ∧ p.Linked plans) →
        ∃ second, cs.decodeValue c (.bytes w') = .ok (.mapping second)) ∧
      ∀ v, cs.decodeValue c (.bytes w') = .ok v → ∃ second both, v = .mapping second ∧
        cs.decodeValue c (.bytes (w ++ w')) = .ok (.mapping both) ∧ c.Merges first second both := by
  have hplaced := placed_of_separable hm (forall₂_ready hm.stems hc)
  have hsparse : cs.fillDefaults = false := (ofPlans_eq_ok.1 hcs).1.trans hfill
  obtain ⟨rs, rfl, hreadable⟩ := hw.readable
  obtain ⟨first, hfirst, hdescribes⟩ := decode_of_readable hplaced (tiles_flatMap rs) hreadable
  refine ⟨first, hfirst, fun w' => ⟨fun hplans => exists_decode_of_plans hcs hc hplans w', fun v hv => ?_⟩⟩
  obtain ⟨rs', htiles⟩ := exists_tiles w'
  obtain ⟨second, rfl, hsecond⟩ := describes_of_decode hplaced htiles hv
  obtain ⟨both, hboth, hmerged⟩ := decode_of_readable hplaced (htiles.append rs)
    (hreadable.append (readable_of_decode htiles hv))
  exact ⟨second, both, rfl, hboth, merges_of_describes hsparse hplaced hdescribes hsecond hmerged⟩

end Codecs

namespace Sample

theorem member_separable : member.Separable .both where
  numbers := by decide
  stems := by decide
  outputs := by decide
  unknown := by decide

theorem member_linked : member.Linked [member] := by
  intro f hf hkind
  simp only [member, List.mem_cons, List.not_mem_nil, or_false] at hf
  rcases hf with rfl | rfl
  · cases hkind
  · cases hkind

def firstRecord : Slice where
  number := 1
  form := .fixed32
  tag := [13]
  payload := [7, 0, 0, 0]
  tag_varint := .last (by decide)
  tag_val := rfl
  number_pos := by decide
  payload_form := .fixed32 rfl

/-- A record of the first field, but not of the form that the field has. -/
def strayRecord : Slice where
  number := 1
  form := .varint
  tag := [8]
  payload := [1]
  tag_varint := .last (by decide)
  tag_val := rfl
  number_pos := by decide
  payload_form := .varint (.last (by decide))

theorem decode_append_member : member.Separable .both ∧ ∃ cs c first second both,
    Codecs.ofPlans sparseSettings [member] = .ok cs ∧ Codecs.codecOf sparseSettings member = .ok c ∧
    cs.UsesUp c {} ([strayRecord, secondRecord].flatMap Slice.bytes) ∧
    cs.decodeValue c (.bytes ([strayRecord, secondRecord].flatMap Slice.bytes)) = .ok (.mapping first) ∧
    cs.decodeValue c (.bytes ([firstRecord, secondRecord].flatMap Slice.bytes)) = .ok (.mapping second) ∧
    cs.decodeValue c (.bytes ([strayRecord, secondRecord].flatMap Slice.bytes ++
      [firstRecord, secondRecord].flatMap Slice.bytes)) = .ok (.mapping both) ∧ c.Merges first second both := by
  have hplans : ∀ p ∈ [member, member], p.Separable .both ∧ p.Linked [member] := by
    intro p hp
    rw [List.mem_pair, or_self] at hp
    subst hp
    exact ⟨member_separable, member_linked⟩
  have hcs : Codecs.ofPlans sparseSettings [member] = .ok ⟨[wordsCodec .both member], false⟩ := rfl
  have hc : Codecs.codecOf sparseSettings member = .ok (wordsCodec .both member) := rfl
  have hw : Codecs.UsesUp ⟨[wordsCodec .both member], false⟩ (wordsCodec .both member) {}
      ([strayRecord, secondRecord].flatMap Slice.bytes) :=
    Codecs.usesUp_iff.2 ⟨_, rfl, _, rfl⟩
  obtain ⟨first, hfirst, happend⟩ := Codecs.decode_append rfl hcs member_separable hc hw
  obtain ⟨hdecode, hmerge⟩ := happend ([firstRecord, secondRecord].flatMap Slice.bytes)
  obtain ⟨second, hsecond⟩ := hdecode hplans
  obtain ⟨_, both, heq, hboth, hmerges⟩ := hmerge _ hsecond
  obtain rfl := Value.mapping.inj heq
  exact ⟨member_separable, _, _, first, second, both, hcs, hc, hw, hfirst, hsecond, hboth, hmerges⟩

end Sample

/-! ### The order of records -/

namespace Codec

/-- Records in another order: those of each field stay in theirs, and so do those that fit no arm. -/
structure Reordered (c : Codec) (rs rs' : List Slice) : Prop where
  perm : rs.Perm rs'
  field : ∀ f ∈ c.fields, rs.filter (fun r => (f.arm? r.number r.form.code).isSome) =
    rs'.filter fun r => (f.arm? r.number r.form.code).isSome
  other : rs.filter (fun r => (c.arm? r.number r.form.code).isNone) =
    rs'.filter fun r => (c.arm? r.number r.form.code).isNone

end Codec

namespace Codecs

/-- The values of a field are those of the records that it takes. -/
theorem hits_filter (cs : Codecs) (f : Field) (rs : List Slice) :
    cs.hits f (rs.filter fun r => (f.arm? r.number r.form.code).isSome) = cs.hits f rs := by
  rw [hits, List.filterMap_filter, hits]
  congr 1
  funext r
  cases f.arm? r.number r.form.code <;> rfl

private theorem hits_of_reordered {cs : Codecs} {c : Codec} {rs rs' : List Slice} (h : c.Reordered rs rs') {f : Field}
    (hf : f ∈ c.fields) : cs.hits f rs = cs.hits f rs' := by
  rw [← hits_filter, h.field f hf, hits_filter]

/-- Bytes that the loop uses up are decoded, with defaults or without, and so are bytes with the same records in
another order. If the records of each field keep their order, and those that fit no arm theirs, the two
messages have the same value under every key. -/
theorem decode_reordered {settings : Settings} {m : MessagePlan} (hm : m.Separable settings.decodeCase) {c : Codec}
    (hc : codecOf settings m = .ok c) {cs : Codecs} {w w' : List UInt8} (hw : cs.UsesUp c {} w) {rs rs' : List Slice}
    (hrs : Tiles w rs) (hrs' : Tiles w' rs') (h : c.Reordered rs rs') :
    ∃ entries entries' : Entries, cs.decodeValue c (.bytes w) = .ok (.mapping entries) ∧
      cs.decodeValue c (.bytes w') = .ok (.mapping entries') ∧ ∀ key, entries.get? key = entries'.get? key := by
  have hplaced := placed_of_separable hm (forall₂_ready hm.stems hc)
  obtain ⟨_, rfl, hreadable⟩ := hw.readable
  obtain rfl := hrs.unique (tiles_flatMap _)
  have hreadable' : cs.Readable c rs' := fun r hr => hreadable r (h.perm.mem_iff.2 hr)
  obtain ⟨entries, hentries, hdescribes⟩ := decode_of_readable hplaced hrs hreadable
  obtain ⟨entries', hentries', hdescribes'⟩ := decode_of_readable hplaced hrs' hreadable'
  refine ⟨entries, entries', hentries, hentries', fun key => ?_⟩
  by_cases hfield : ∃ f ∈ c.fields, key ∈ f.outputs
  · obtain ⟨f, hf, hkey⟩ := hfield
    rw [hdescribes.field f hf key hkey, hdescribes'.field f hf key hkey, hits_of_reordered h hf]
  · push Not at hfield
    have hkept : c.kept rs = c.kept rs' := by rw [kept, kept, h.other]
    rw [hdescribes.other key hfield, hdescribes'.other key hfield, hkept]

end Codecs

namespace Sample

private theorem reordered_member :
    (wordsCodec .both member).Reordered [strayRecord, firstRecord, secondRecord] [secondRecord, firstRecord, strayRecord] where
  perm := (List.reverse_perm [secondRecord, firstRecord, strayRecord])
  field f hf := by
    simp only [wordsCodec, member, List.map_cons, List.map_nil, List.mem_cons, List.not_mem_nil, or_false] at hf
    rcases hf with rfl | rfl
    · rfl
    · rfl
  other := rfl

theorem decode_reordered_member : member.Separable .both ∧ ∃ c, Codecs.codecOf { decodeCase := .both } member = .ok c ∧
    ∃ (cs : Codecs) (w w' : List UInt8) (rs rs' : List Slice), cs.fillDefaults = true ∧ cs.UsesUp c {} w ∧ Tiles w rs ∧
      Tiles w' rs' ∧ c.Reordered rs rs' ∧ w ≠ w' ∧ ∃ entries entries' : Entries,
        cs.decodeValue c (.bytes w) = .ok (.mapping entries) ∧ cs.decodeValue c (.bytes w') = .ok (.mapping entries') ∧
        ∀ key, entries.get? key = entries'.get? key := by
  have hc : Codecs.codecOf { decodeCase := .both } member = .ok (wordsCodec .both member) := rfl
  have hw : Codecs.UsesUp ⟨[wordsCodec .both member], true⟩ (wordsCodec .both member) {}
      ([strayRecord, firstRecord, secondRecord].flatMap Slice.bytes) :=
    Codecs.usesUp_iff.2 ⟨_, rfl, _, rfl⟩
  obtain ⟨entries, entries', hentries, hentries', hsame⟩ := Codecs.decode_reordered member_separable hc hw
    (tiles_flatMap _) (tiles_flatMap _) reordered_member
  exact ⟨member_separable, _, hc, _, _, _, _, _, rfl, hw, tiles_flatMap _, tiles_flatMap _, reordered_member, by decide,
    entries, entries', hentries, hentries', hsame⟩

end Sample

end MessageCodec
