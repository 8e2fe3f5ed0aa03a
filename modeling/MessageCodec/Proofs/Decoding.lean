import MessageCodec.Proofs.WellFormed

/-!
# What a message is decoded to

Decoding a well-formed message always succeeds, and the entry of a field depends on the records of that
field alone, in their order: a list of all their values where the field is repeated, the last of them
where it is not, and the default where there is none and defaults are filled in.
-/

namespace MessageCodec

open Codec Wire

/-! ### The entry of a field -/

def Codec.joined (hits : List (List Value)) : Option (List Value) :=
  if hits.isEmpty then none else some hits.flatten

theorem Codec.joined_append (hits hits' : List (List Value)) :
    joined (hits ++ hits') = Option.merge (· ++ ·) (joined hits) (joined hits') := by
  cases hits with
  | nil => simp [joined]
  | cons vs hits =>
    cases hits' with
    | nil => simp [joined]
    | cons vs' hits' => simp [joined]

namespace Codec.Field

/-- What a field holds after the values of some records have been taken. -/
def gathered (f : Field) (hits : List (List Value)) : Option Value :=
  if f.repeated then if hits.isEmpty then none else some (.list hits.flatten)
  else hits.flatten.getLast?

theorem gathered_of_repeated {f : Field} (h : f.repeated = true) (hits : List (List Value)) :
    f.gathered hits = (joined hits).map Value.list := by
  rw [gathered, if_pos h, joined]
  split <;> rfl

theorem gathered_of_singular {f : Field} (h : f.repeated = false) (hits : List (List Value)) :
    f.gathered hits = hits.flatten.getLast? := by
  rw [gathered, if_neg (by rw [h]; simp)]

/-- A field that is not repeated holds what the last records say about it. -/
theorem gathered_append {f : Field} (h : f.repeated = false) (hits hits' : List (List Value)) :
    f.gathered (hits ++ hits') = (f.gathered hits').or (f.gathered hits) := by
  rw [gathered_of_singular h, gathered_of_singular h, gathered_of_singular h, List.flatten_append, List.getLast?_append]

def fallback (f : Field) : Option Value :=
  if f.repeated then some (.list [])
  else
    match f.type with
    | .message _ => none
    | .element _ => if f.presence then none else some f.default

def entry (fill : Bool) (f : Field) (hits : List (List Value)) : Option Value :=
  (f.gathered hits).or (if fill then f.fallback else none)

end Codec.Field

namespace Codecs

def values (cs : Codecs) (arm : Arm) (payload : List UInt8) : List Value :=
  (cs.valuesOf arm payload).toOption.getD []

theorem values_of_ok {cs : Codecs} {arm : Arm} {payload : List UInt8} {vs : List Value}
    (h : cs.valuesOf arm payload = .ok vs) : cs.values arm payload = vs := by
  rw [values, h]
  rfl

/-- The values of the records of a field, record by record. -/
def hits (cs : Codecs) (f : Field) (rs : List Slice) : List (List Value) :=
  rs.filterMap fun r => (f.arm? r.number r.form.code).map fun arm => cs.values arm r.payload

theorem hits_append (cs : Codecs) (f : Field) (rs rs' : List Slice) :
    cs.hits f (rs ++ rs') = cs.hits f rs ++ cs.hits f rs' :=
  List.filterMap_append

theorem hits_singleton_of_arm? {cs : Codecs} {f : Field} {r : Slice} {arm : Arm}
    (h : f.arm? r.number r.form.code = some arm) : cs.hits f [r] = [cs.values arm r.payload] := by
  simp [hits, h]

theorem hits_singleton_of_none {cs : Codecs} {f : Field} {r : Slice}
    (h : f.arm? r.number r.form.code = none) : cs.hits f [r] = [] := by
  simp [hits, h]

/-- What has been gathered is what the records so far say about every field. -/
def Gathers (cs : Codecs) (c : Codec) (g : Gathered) (rs : List Slice) : Prop :=
  ∀ f ∈ c.fields, ∀ key ∈ f.outputs, g.entries.get? key = f.gathered (cs.hits f rs)

theorem take_gathered {f : Field} (hnodup : f.outputs.Nodup) {g : Gathered} {hits : List (List Value)}
    (h : ∀ key ∈ f.outputs, g.entries.get? key = f.gathered hits) (values : List Value) :
    ∃ g', g.take f values = .ok g' ∧ ∀ key ∈ f.outputs, g'.entries.get? key = f.gathered (hits ++ [values]) := by
  cases hrepeated : f.repeated with
  | true =>
    have hheld : ∀ key ∈ f.outputs, g.entries.get? key = (joined hits).map Value.list := by
      intro key hkey
      rw [h key hkey, Field.gathered_of_repeated hrepeated]
    obtain ⟨after, happend, hafter⟩ := Entries.append_of_held hnodup hheld values
    refine ⟨{ g with entries := after }, ?_, fun key hkey => ?_⟩
    · rw [Gathered.take_of_repeated g hrepeated, Gathered.append, happend]
    · rw [hafter key hkey, Field.gathered_of_repeated hrepeated, joined_append]
      cases joined hits <;> simp [joined]
  | false =>
    refine ⟨_, if_neg (by rw [hrepeated]; simp), fun key hkey => ?_⟩
    dsimp only
    rw [Entries.get?_foldl_assign, if_pos hkey, h key hkey, Field.gathered_append hrepeated,
      Field.gathered_of_singular hrepeated [values]]
    simp

/-- One more record is taken by its field, or by none. -/
theorem consume_gathers {cs : Codecs} {c : Codec} (hc : c.Separate) {g : Gathered} {rs : List Slice}
    (h : cs.Gathers c g rs) {r : Slice}
    (hvalues : ∀ f arm, c.arm? r.number r.form.code = some (f, arm) → ∃ vs, cs.valuesOf arm r.payload = .ok vs) :
    ∃ g', cs.consume c g r = .ok g' ∧ cs.Gathers c g' (rs ++ [r]) := by
  cases harm : c.arm? r.number r.form.code with
  | none =>
    refine ⟨g.keep r.bytes, by rw [consume, harm], fun f hf key hkey => ?_⟩
    rw [hits_append, hits_singleton_of_none (arm?_eq_none_of_mem hf harm), List.append_nil]
    exact h f hf key hkey
  | some found =>
    obtain ⟨f, arm⟩ := found
    obtain ⟨hf, harm'⟩ := arm?_some harm
    obtain ⟨vs, hvs⟩ := hvalues f arm harm
    obtain ⟨g', htake, hg'⟩ := take_gathered (hc.outputs_nodup f hf) (h f hf) vs
    refine ⟨g', by rw [consume, harm]; dsimp only; rw [hvs, ok_bind, htake], fun f' hf' key hkey => ?_⟩
    by_cases hsame : key ∈ f.outputs
    · obtain rfl := hc.outputs f hf f' hf' key hsame hkey
      rw [hg' key hsame, hits_append, hits_singleton_of_arm? harm', values_of_ok hvs]
    · have hnone : f'.arm? r.number r.form.code = none := by
        by_contra hsome
        obtain ⟨arm', harm''⟩ := Option.ne_none_iff_exists'.1 hsome
        have heq := hc.arm?_of_mem hf' harm''
        rw [harm, Option.some.injEq, Prod.mk.injEq] at heq
        exact hsame (heq.1 ▸ hkey)
      rw [Gathered.take_get? hsame htake, h f' hf' key hkey, hits_append, hits_singleton_of_none hnone,
        List.append_nil]

/-- The values can be read of every record that a field takes. -/
def Readable (cs : Codecs) (c : Codec) (rs : List Slice) : Prop :=
  ∀ r ∈ rs, ∀ f arm, c.arm? r.number r.form.code = some (f, arm) → ∃ vs, cs.valuesOf arm r.payload = .ok vs

/-- Where records could be taken one after the other, the values of each could be read. -/
theorem readable_of_foldlM {cs : Codecs} {c : Codec} {rs : List Slice} {g g' : Gathered}
    (h : rs.foldlM (cs.consume c) g = .ok g') : cs.Readable c rs := by
  induction rs generalizing g with
  | nil => simp [Readable]
  | cons r rs ih =>
    rw [List.foldlM_cons] at h
    obtain ⟨mid, hstep, hrest⟩ := bind_eq_ok.1 h
    refine List.forall_mem_cons.2 ⟨fun f arm harm => ?_, ih hrest⟩
    rw [consume, harm] at hstep
    obtain ⟨vs, hvs, -⟩ := bind_eq_ok.1 hstep
    exact ⟨vs, hvs⟩

theorem foldlM_gathers {cs : Codecs} {c : Codec} (hc : c.Separate) {rs : List Slice} {g : Gathered}
    {done : List Slice} (h : cs.Gathers c g done) (hvalues : cs.Readable c rs) :
    ∃ g', rs.foldlM (cs.consume c) g = .ok g' ∧ cs.Gathers c g' (done ++ rs) := by
  induction rs generalizing g done with
  | nil => exact ⟨g, rfl, by rwa [List.append_nil]⟩
  | cons r rs ih =>
    obtain ⟨mid, hstep, hmid⟩ := consume_gathers hc h (hvalues r List.mem_cons_self)
    obtain ⟨g', hrest, hg'⟩ := ih hmid fun r' hr' => hvalues r' (List.mem_cons_of_mem _ hr')
    refine ⟨g', by rw [List.foldlM_cons, hstep, ok_bind, hrest], ?_⟩
    rwa [List.append_assoc] at hg'

theorem gathers_nil (cs : Codecs) (c : Codec) : cs.Gathers c {} [] := by
  intro f _ key _
  rw [hits, List.filterMap_nil, Field.gathered]
  split <;> rfl

/-! ### Filling in defaults -/

/-- A field is filled in with what it falls back to, if with anything. -/
theorem fillField_eq (entries : Entries) (f : Field) :
    fillField entries f = (f.fallback.map (entries.fillDefault f.outputs)).getD entries := by
  rw [fillField, Field.fallback]
  split
  · rfl
  · cases f.type with
    | message child => rfl
    | element type => dsimp only; split <;> rfl

theorem fillField_get? {f : Field} {entries : Entries} {held : Option Value} {first : String} {rest : List String}
    (houtputs : f.outputs = first :: rest) (h : ∀ key ∈ f.outputs, entries.get? key = held) :
    ∀ key ∈ f.outputs, (fillField entries f).get? key = held.or f.fallback := by
  intro key hkey
  have hfirst := h first (houtputs ▸ List.mem_cons_self)
  rw [fillField_eq]
  cases f.fallback with
  | none => exact (h key hkey).trans Option.or_none.symm
  | some v =>
    rw [houtputs] at hkey
    rw [Option.map_some, Option.getD_some, houtputs, Entries.get?_fillDefault, hfirst]
    cases held with
    | none => rw [if_pos ⟨hkey, rfl⟩]; rfl
    | some w =>
      rw [if_neg (by simp), h key (houtputs ▸ hkey)]
      rfl

theorem foldl_fillField_get? {fields : List Field}
    (hdisjoint : fields.Pairwise fun f g => ∀ key ∈ f.outputs, key ∉ g.outputs)
    {f : Field} (hf : f ∈ fields) {first : String} {rest : List String} (houtputs : f.outputs = first :: rest)
    {entries : Entries} {held : Option Value} (h : ∀ key ∈ f.outputs, entries.get? key = held) :
    ∀ key ∈ f.outputs, (fields.foldl fillField entries).get? key = held.or f.fallback := by
  induction fields generalizing entries with
  | nil => simp at hf
  | cons g fields ih =>
    rw [List.pairwise_cons] at hdisjoint
    intro key hkey
    rw [List.foldl_cons]
    rcases List.mem_cons.1 hf with rfl | hf
    · rw [get?_foldl_fillField fun g hg => hdisjoint.1 g hg key hkey]
      exact fillField_get? houtputs h key hkey
    · refine ih hdisjoint.2 hf (fun key' hkey' => ?_) key hkey
      have hnot : key' ∉ g.outputs := fun hmem => hdisjoint.1 f hf key' hmem hkey'
      rw [get?_fillField hnot, h key' hkey']

theorem outputs_pairwise {c : Codec} (hc : c.Separate) :
    c.fields.Pairwise fun f g => ∀ key ∈ f.outputs, key ∉ g.outputs := by
  have hnumbers := hc.numbers
  rw [List.Nodup, List.pairwise_map] at hnumbers
  refine List.Pairwise.imp_of_mem ?_ hnumbers
  intro f g hf hg hne key hkey hkey'
  exact hne (congrArg Field.number (hc.outputs f hf g hg key hkey hkey'))

/-! ### Decoding -/

structure Describes (cs : Codecs) (c : Codec) (rs : List Slice) (entries : Entries) : Prop where
  field : ∀ f ∈ c.fields, ∀ key ∈ f.outputs, entries.get? key = f.entry cs.fillDefaults (cs.hits f rs)
  other : ∀ key, (∀ f ∈ c.fields, key ∉ f.outputs) → entries.get? key =
    if key = unknownKey ∧ c.kept rs ≠ [] then some (.text (Base64.encodeText (c.kept rs))) else none

/-- Decoding takes the records of the cut one by one and finishes what it has gathered. -/
theorem decode_eq_ok {cs : Codecs} {c : Codec} {w : List UInt8} {rs : List Slice} (htiles : Tiles w rs) {v : Value} :
    cs.decode c w = .ok v ↔ ∃ g, rs.foldlM (cs.consume c) {} = .ok g ∧ v = finish cs.fillDefaults c g := by
  rw [decode, gather_of_tiles htiles, bind_eq_ok]
  refine exists_congr fun g => and_congr_right fun _ => ?_
  exact ⟨fun h => (Except.ok.inj h).symm, fun h => h ▸ rfl⟩

theorem readable_of_decode {cs : Codecs} {c : Codec} {w : List UInt8} {rs : List Slice} (htiles : Tiles w rs) {v : Value}
    (h : cs.decode c w = .ok v) : cs.Readable c rs := by
  obtain ⟨g, hg, -⟩ := (decode_eq_ok htiles).1 h
  exact readable_of_foldlM hg

/-- Bytes whose records can be read are decoded to the message that the records describe. -/
theorem decode_of_readable {cs : Codecs} {c : Codec} (hc : c.Placed) {w : List UInt8} {rs : List Slice}
    (htiles : Tiles w rs) (hvalues : cs.Readable c rs) :
    ∃ entries, cs.decode c w = .ok (.mapping entries) ∧ cs.Describes c rs entries := by
  obtain ⟨g, hg, hgathers⟩ := foldlM_gathers hc.toSeparate (gathers_nil cs c) hvalues
  have hdecode : cs.decode c w = .ok (finish cs.fillDefaults c g) := (decode_eq_ok htiles).2 ⟨g, hg, rfl⟩
  refine ⟨_, hdecode, fun f hf key hkey => ?_, fun key hkey => ?_⟩
  · obtain ⟨first, rest, houtputs⟩ := List.exists_cons_of_ne_nil (hc.outputs_ne_nil f hf)
    have hne : key ≠ unknownKey := fun heq => hc.unknown_outputs f hf (heq ▸ hkey)
    rw [Entries.get?_attachUnknown_of_ne hne, Field.entry]
    split
    · exact foldl_fillField_get? (outputs_pairwise hc.toSeparate) hf houtputs (hgathers f hf) key hkey
    · rw [Option.or_none]
      exact hgathers f hf key hkey
  · exact decode_member?_of_not_output htiles hkey hdecode

/-- What bytes are decoded to, if to anything, is the message that their records describe. -/
theorem describes_of_decode {cs : Codecs} {c : Codec} (hc : c.Placed) {w : List UInt8} {rs : List Slice}
    (htiles : Tiles w rs) {v : Value} (h : cs.decode c w = .ok v) :
    ∃ entries, v = .mapping entries ∧ cs.Describes c rs entries := by
  obtain ⟨entries, hentries, hdescribes⟩ := decode_of_readable hc htiles (readable_of_decode htiles h)
  exact ⟨entries, Except.ok.inj (h.symm.trans hentries), hdescribes⟩

theorem child_eq_ok {cs : Codecs} {name : String} {inner : Codec} :
    cs.child name = .ok inner ↔ cs.codec? name = some inner := by
  rw [child]
  split
  · rename_i found hfound
    rw [hfound, Except.ok.injEq, Option.some.injEq]
  · rename_i hnone
    rw [hnone]
    simp

private theorem valuesOf_ok {cs : Codecs} {c : Codec} (hlinked : c.Linked cs) {f : Field} (hf : f ∈ c.fields)
    {number code : Nat} {arm : Arm} (harm : f.arm? number code = some arm) {payload : List UInt8}
    (hchild : ∀ name inner, cs.codec? name = some inner → ∀ block : List UInt8, block.length < payload.length →
      ∃ v, cs.decode inner block = .ok v) : ∃ vs, cs.valuesOf arm payload = .ok vs := by
  cases arm with
  | packed type => exact ⟨_, rfl⟩
  | single type => exact ⟨_, rfl⟩
  | message child =>
    obtain ⟨inner, hinner⟩ := hlinked f hf child (Field.type_of_arm?_message harm)
    rw [valuesOf, child_eq_ok.2 hinner, ok_bind]
    cases hread : readDelimited payload with
    | none => exact ⟨[], rfl⟩
    | some found =>
      obtain ⟨block, rest⟩ := found
      have hlt := readDelimited_lt hread
      obtain ⟨v, hv⟩ := hchild child inner hinner block (by omega)
      exact ⟨[v], by dsimp only; rw [hv]; rfl⟩

/-- Where every message that can be asked for has places for its fields and holds only messages that can be
asked for, all bytes are decoded. -/
theorem exists_decode {cs : Codecs} (hcs : ∀ name inner, cs.codec? name = some inner → inner.Placed ∧ inner.Linked cs)
    {c : Codec} (hc : c.Placed) (hlinked : c.Linked cs) (w : List UInt8) : ∃ v, cs.decode c w = .ok v := by
  -- a child message is a proper part of the bytes, so the induction is on their length
  induction hn : w.length using Nat.strongRecOn generalizing c w with
  | _ n ih =>
    obtain ⟨rs, htiles⟩ := exists_tiles w
    have hvalues : cs.Readable c rs := by
      intro r hr f arm harm
      obtain ⟨hf, harm⟩ := arm?_some harm
      refine valuesOf_ok hlinked hf harm fun name inner hinner block hblock => ?_
      have hlen := length_payload_le htiles hr
      obtain ⟨hplaced, hinnerLinked⟩ := hcs name inner hinner
      exact ih block.length (by omega) hplaced hinnerLinked block rfl
    obtain ⟨entries, hentries, -⟩ := decode_of_readable hc htiles hvalues
    exact ⟨_, hentries⟩

/-- In a closed set every byte string is decoded to the message that its records describe. -/
theorem decode_describes {cs : Codecs} (hclosed : cs.Closed) {c : Codec} (hc : c.WellFormed cs) {w : List UInt8}
    {rs : List Slice} (htiles : Tiles w rs) :
    ∃ entries, cs.decode c w = .ok (.mapping entries) ∧ cs.Describes c rs entries := by
  have hcs : ∀ name inner, cs.codec? name = some inner → inner.Placed ∧ inner.Linked cs := fun name inner hinner =>
    ⟨(hclosed name inner hinner).unmixed.placed, (hclosed name inner hinner).linked⟩
  obtain ⟨v, hv⟩ := exists_decode hcs hc.unmixed.placed hc.linked w
  exact decode_of_readable hc.unmixed.placed htiles (readable_of_decode htiles hv)

end Codecs

end MessageCodec
