import MessageCodec.Proofs.Lookup

/-!
# Two decoders in step

Two sets of codecs read the same records of one message. As long as the values they find in each record are
related, what they have gathered stays related: they fail together, and they hold related values under every
key that belongs to one field. Such a key is there just when a record of its field has been read.
-/

namespace MessageCodec

open Codec Wire

/-! ### Lists under keys -/

def Value.isList : Value → Bool
  | .list _ => true
  | _ => false

/-- Two entries of which none or both are there, and none or both are lists. -/
def Entries.SameShape (entries entries' : Entries) : Prop :=
  ∀ key, Option.Rel (fun v v' : Value => v'.isList = v.isList) (entries.get? key) (entries'.get? key)

namespace Entries

theorem SameShape.put {entries entries' : Entries} (h : entries.SameShape entries') (key : String) {v v' : Value}
    (hv : v'.isList = v.isList) : Entries.SameShape (entries.put key v) (entries'.put key v') := by
  intro other
  rw [Table.get?_put, Table.get?_put]
  split
  · exact .some hv
  · exact h other

private theorem appendOne_of_isList {entries : Entries} {key : String} {v : Value} (h : entries.get? key = some v)
    (hlist : v.isList = true) (values : List Value) :
    ∃ xs, entries.appendOne key values = some (entries.put key (.list xs)) := by
  rw [appendOne, h]
  cases v with
  | list items => exact ⟨_, rfl⟩
  | _ => cases hlist

private theorem appendOne_of_not_isList {entries : Entries} {key : String} {v : Value} (h : entries.get? key = some v)
    (hlist : v.isList = false) (values : List Value) : entries.appendOne key values = none := by
  rw [appendOne, h]
  cases v with
  | list items => cases hlist
  | _ => rfl

/-- Whether elements can be appended depends on the shape alone, and so does the key that they cannot be
appended under. -/
theorem append_sameShape {entries entries' : Entries} (h : entries.SameShape entries') (keys : List String)
    (values values' : List Value) :
    (∃ after after', entries.append keys values = .ok after ∧ entries'.append keys values' = .ok after') ∨
      ∃ before before' e, entries.append keys values = .error (before, e) ∧
        entries'.append keys values' = .error (before', e) := by
  induction keys generalizing entries entries' with
  | nil => exact .inl ⟨entries, entries', rfl, rfl⟩
  | cons key keys ih =>
    have hstep : (∃ xs ys, entries.appendOne key values = some (entries.put key (.list xs)) ∧
          entries'.appendOne key values' = some (entries'.put key (.list ys))) ∨
        (entries.appendOne key values = none ∧ entries'.appendOne key values' = none) := by
      obtain ⟨hnone, hnone'⟩ | ⟨v, v', hv, hv', hlist⟩ := eq_none_or_of_rel (h key)
      · rw [appendOne, hnone, appendOne, hnone']
        exact .inl ⟨_, _, rfl, rfl⟩
      cases hshape : v.isList with
      | true =>
        obtain ⟨xs, hxs⟩ := appendOne_of_isList hv hshape values
        obtain ⟨ys, hys⟩ := appendOne_of_isList hv' (hlist.trans hshape) values'
        exact .inl ⟨xs, ys, hxs, hys⟩
      | false =>
        exact .inr ⟨appendOne_of_not_isList hv hshape values, appendOne_of_not_isList hv' (hlist.trans hshape) values'⟩
    unfold append
    rcases hstep with ⟨xs, ys, hxs, hys⟩ | ⟨hnone, hnone'⟩
    · rw [hxs, hys]
      exact ih (h.put key rfl)
    · rw [hnone, hnone']
      exact .inr ⟨_, _, _, rfl, rfl⟩

end Entries

namespace Codec

/-! ### Values of a record -/

/-- What a field holds under a key once it has taken values. -/
def Field.extended (f : Field) (held : Option Value) (values : List Value) : Option Value :=
  if f.repeated then some (.list ((held.map Value.items).getD [] ++ values)) else values.getLast?.or held

theorem Gathered.take_get?_of_mem {g g' : Gathered} {f : Field} (hnodup : f.outputs.Nodup) {values : List Value}
    (h : g.take f values = .ok g') {key : String} (hkey : key ∈ f.outputs) :
    g'.entries.get? key = f.extended (g.entries.get? key) values := by
  rw [Field.extended]
  unfold Gathered.take at h
  split at h
  · rename_i hrepeated
    unfold Gathered.append at h
    split at h
    · rename_i entries happend
      rw [← Except.ok.inj h, if_pos hrepeated]
      exact Entries.get?_append_of_mem hnodup happend hkey
    · cases h
  · rename_i hsingular
    rw [← Except.ok.inj h, if_neg hsingular]
    exact (Entries.get?_foldl_assign _ _ _ _).trans (if_pos hkey)

/-- The values that two decoders hold for a field: lists of related values, or related values. -/
def Field.Alike (f : Field) (T : Value → Value → Prop) (v v' : Value) : Prop :=
  if f.repeated then ∃ us us', v = .list us ∧ v' = .list us' ∧ List.Forall₂ T us us' else T v v'

theorem Field.isSome_extended {f : Field} {values : List Value} (h : f.repeated = false → values ≠ [])
    (held : Option Value) : (f.extended held values).isSome = true := by
  rw [extended]
  cases hrepeated : f.repeated with
  | true => rfl
  | false => rw [if_neg (by simp), Option.isSome_or, List.getLast?_isSome.2 (h hrepeated), Bool.true_or]

theorem getLast?_rel {α β : Type} {R : α → β → Prop} {as : List α} {bs : List β} (h : List.Forall₂ R as bs) :
    Option.Rel R as.getLast? bs.getLast? := by
  induction h with
  | nil => exact .none
  | @cons a b as bs hab _ ih =>
    rw [List.getLast?_cons, List.getLast?_cons]
    obtain ⟨hnone, hnone'⟩ | ⟨u, u', hu, hu', hlast⟩ := eq_none_or_of_rel ih
    · rw [hnone, hnone']
      exact .some hab
    · rw [hu, hu']
      exact .some hlast

theorem Field.extended_alike {f : Field} {T : Value → Value → Prop} {held held' : Option Value}
    (h : Option.Rel (f.Alike T) held held') {values values' : List Value} (hvalues : List.Forall₂ T values values') :
    Option.Rel (f.Alike T) (f.extended held values) (f.extended held' values') := by
  rw [extended, extended]
  cases hrepeated : f.repeated with
  | true =>
    rw [if_pos rfl, if_pos rfl]
    apply Option.Rel.some
    rw [Alike, if_pos hrepeated]
    refine ⟨_, _, rfl, rfl, ?_⟩
    cases h with
    | none => exact hvalues
    | some halike =>
      rw [Alike, if_pos hrepeated] at halike
      obtain ⟨us, us', rfl, rfl, hus⟩ := halike
      exact List.rel_append hus hvalues
  | false =>
    have halike : f.Alike T = T := by
      funext v v'
      rw [Alike, if_neg (by rw [hrepeated]; simp)]
    rw [if_neg (by simp), if_neg (by simp)]
    rw [halike] at h ⊢
    obtain ⟨hnone, hnone'⟩ | ⟨u, u', hu, hu', hlast⟩ := eq_none_or_of_rel (getLast?_rel hvalues)
    · rw [hnone, hnone', Option.none_or, Option.none_or]
      exact h
    · rw [hu, hu']
      exact .some hlast

/-! ### What is gathered -/

/-- At most one field is decoded to a key. -/
def Own (c : Codec) (key : String) : Prop :=
  ∀ f ∈ c.fields, ∀ g ∈ c.fields, key ∈ f.outputs → key ∈ g.outputs → f = g

/-- A record that a field takes. -/
def Field.Takes (f : Field) (r : Slice) : Prop := (f.arm? r.number r.form.code).isSome = true

/-- What two decoders have gathered from the same records. -/
structure InStep (T : Field → Value → Value → Prop) (c : Codec) (done : List Slice) (g g' : Gathered) : Prop where
  shape : g.entries.SameShape g'.entries
  alike : ∀ f ∈ c.fields, ∀ key ∈ f.outputs, c.Own key →
    Option.Rel (f.Alike (T f)) (g.entries.get? key) (g'.entries.get? key)
  present : ∀ f ∈ c.fields, (∃ r ∈ done, f.Takes r) → ∀ key ∈ f.outputs, (g.entries.get? key).isSome = true
  taken : ∀ f ∈ c.fields, ∀ key ∈ f.outputs, c.Own key → (g.entries.get? key).isSome = true → ∃ r ∈ done, f.Takes r

variable {T : Field → Value → Value → Prop} {c : Codec}

theorem inStep_nil : InStep T c [] {} {} where
  shape _ := .none
  alike _ _ _ _ _ := .none
  present := by simp
  taken _ _ _ _ _ h := by cases h

/-- A record that neither decoder can use is kept by both. -/
theorem InStep.keep {done : List Slice} {g g' : Gathered} (h : InStep T c done g g') {r : Slice}
    (hr : ∀ f ∈ c.fields, ¬ f.Takes r) (bytes : List UInt8) :
    InStep T c (done ++ [r]) (g.keep bytes) (g'.keep bytes) where
  shape := h.shape
  alike := h.alike
  present f hf := by
    intro ⟨r', hr', htakes⟩
    rcases List.mem_append.1 hr' with hdone | hlast
    · exact h.present f hf ⟨r', hdone, htakes⟩
    · rw [List.mem_singleton.1 hlast] at htakes
      exact absurd htakes (hr f hf)
  taken f hf key hkey hown hsome := by
    obtain ⟨r', hr', htakes⟩ := h.taken f hf key hkey hown hsome
    exact ⟨r', List.mem_append_left _ hr', htakes⟩

theorem Gathered.take_matches {g g' : Gathered} (h : g.entries.SameShape g'.entries) (f : Field)
    (values values' : List Value) :
    Matches (fun a a' => g.take f values = .ok a ∧ g'.take f values' = .ok a') (g.take f values) (g'.take f values') := by
  cases hrepeated : f.repeated with
  | true =>
    rw [take_of_repeated g hrepeated, take_of_repeated g' hrepeated]
    unfold append
    obtain ⟨after, after', hafter, hafter'⟩ | ⟨before, before', e, herror, herror'⟩ :=
      Entries.append_sameShape h f.outputs values values'
    · rw [hafter, hafter']
      exact .ok ⟨rfl, rfl⟩
    · rw [herror, herror']
      exact .error e
  | false =>
    rw [take, take, if_neg (by rw [hrepeated]; simp), if_neg (by rw [hrepeated]; simp)]
    exact .ok ⟨rfl, rfl⟩

/-- A record that both decoders find related values in is taken by both. -/
theorem InStep.take {done : List Slice} {g g' a a' : Gathered} (h : InStep T c done g g')
    (hT : ∀ f u u', T f u u' → u'.isList = u.isList) (hnumbers : (c.fields.map Field.number).Nodup) {f : Field}
    (hf : f ∈ c.fields) (hnodup : f.outputs.Nodup) {r : Slice} (hr : f.Takes r) {values values' : List Value}
    (hvalues : List.Forall₂ (T f) values values') (hne : f.repeated = false → values ≠ [])
    (ha : g.take f values = .ok a) (ha' : g'.take f values' = .ok a') : InStep T c (done ++ [r]) a a' where
  shape key := by
    by_cases hkey : key ∈ f.outputs
    · rw [Gathered.take_get?_of_mem hnodup ha hkey, Gathered.take_get?_of_mem hnodup ha' hkey, Field.extended,
        Field.extended]
      cases hrepeated : f.repeated with
      | true => exact .some rfl
      | false =>
        rw [if_neg (by simp), if_neg (by simp)]
        obtain ⟨hnone, -⟩ | ⟨u, u', hu, hu', hlast⟩ := eq_none_or_of_rel (getLast?_rel hvalues)
        · exact absurd (List.getLast?_eq_none_iff.1 hnone) (hne hrepeated)
        · rw [hu, hu']
          exact .some (hT f u u' hlast)
    · rw [Gathered.take_get? hkey ha, Gathered.take_get? hkey ha']
      exact h.shape key
  alike f' hf' key hkey' hown := by
    by_cases hkey : key ∈ f.outputs
    · obtain rfl := hown f hf f' hf' hkey hkey'
      rw [Gathered.take_get?_of_mem hnodup ha hkey, Gathered.take_get?_of_mem hnodup ha' hkey]
      exact Field.extended_alike (h.alike f hf key hkey hown) hvalues
    · rw [Gathered.take_get? hkey ha, Gathered.take_get? hkey ha']
      exact h.alike f' hf' key hkey' hown
  present f' hf' := by
    intro ⟨r', hr', htakes⟩ key hkey'
    by_cases hkey : key ∈ f.outputs
    · rw [Gathered.take_get?_of_mem hnodup ha hkey]
      exact Field.isSome_extended hne _
    · rw [Gathered.take_get? hkey ha]
      rcases List.mem_append.1 hr' with hdone | hlast
      · exact h.present f' hf' ⟨r', hdone, htakes⟩ key hkey'
      · -- the record that was just taken has the number of one field only
        rw [List.mem_singleton.1 hlast] at htakes
        obtain ⟨arm, harm⟩ := Option.isSome_iff_exists.1 hr
        obtain ⟨arm', harm'⟩ := Option.isSome_iff_exists.1 htakes
        have hnumber := (Field.number_of_arm? harm').symm.trans (Field.number_of_arm? harm)
        exact absurd (List.inj_on_of_nodup_map hnumbers hf' hf hnumber ▸ hkey') hkey
  taken f' hf' key hkey' hown hsome := by
    by_cases hkey : key ∈ f.outputs
    · obtain rfl := hown f hf f' hf' hkey hkey'
      exact ⟨r, List.mem_append_right _ (List.mem_singleton_self r), hr⟩
    · rw [Gathered.take_get? hkey ha] at hsome
      obtain ⟨r', hr', htakes⟩ := h.taken f' hf' key hkey' hown hsome
      exact ⟨r', List.mem_append_left _ hr', htakes⟩

end Codec

namespace Codecs

variable {T : Field → Value → Value → Prop} {c : Codec} {cs cs' : Codecs}

/-- Both decoders find related values in a record, or fail on it in the same way. -/
def Paired (T : Field → Value → Value → Prop) (c : Codec) (cs cs' : Codecs) (r : Slice) : Prop :=
  ∀ f arm, c.arm? r.number r.form.code = some (f, arm) →
    Matches (List.Forall₂ (T f)) (cs.valuesOf arm r.payload) (cs'.valuesOf arm r.payload)

private theorem consume_inStep (hT : ∀ f u u', T f u u' → u'.isList = u.isList)
    (hnumbers : (c.fields.map Field.number).Nodup) (hnodup : ∀ f ∈ c.fields, f.outputs.Nodup) {done : List Slice}
    {g g' : Gathered} (h : InStep T c done g g') {r : Slice} (hr : Paired T c cs cs' r) :
    Matches (InStep T c (done ++ [r])) (cs.consume c g r) (cs'.consume c g' r) := by
  rw [consume, consume]
  cases harm : c.arm? r.number r.form.code with
  | none =>
    refine .ok (h.keep (fun f hf htakes => ?_) r.bytes)
    rw [Field.Takes, arm?_eq_none_of_mem hf harm] at htakes
    cases htakes
  | some found =>
    obtain ⟨f, arm⟩ := found
    obtain ⟨hf, harm'⟩ := arm?_some harm
    have htakes : f.Takes r := by rw [Field.Takes, harm']; rfl
    have hpaired := hr f arm harm
    dsimp only
    cases hvalues : cs.valuesOf arm r.payload with
    | error e =>
      rw [hvalues] at hpaired
      generalize cs'.valuesOf arm r.payload = outcome at hpaired
      cases hpaired with
      | error => exact .error e
    | ok values =>
      obtain ⟨values', hvalues', hrel⟩ := hpaired.exists_ok hvalues
      rw [hvalues', ok_bind, ok_bind]
      have hmatches := Gathered.take_matches h.shape f values values'
      have hne : f.repeated = false → values ≠ [] := fun hsingular => valuesOf_ne_nil hsingular harm' hvalues
      refine hmatches.imp fun a a' htaken => ?_
      exact h.take hT hnumbers hf (hnodup f hf) htakes hrel hne htaken.1 htaken.2

theorem foldlM_inStep (hT : ∀ f u u', T f u u' → u'.isList = u.isList)
    (hnumbers : (c.fields.map Field.number).Nodup) (hnodup : ∀ f ∈ c.fields, f.outputs.Nodup) {rs done : List Slice}
    {g g' : Gathered} (h : InStep T c done g g') (hrs : ∀ r ∈ rs, Paired T c cs cs' r) :
    Matches (InStep T c (done ++ rs)) (rs.foldlM (cs.consume c) g) (rs.foldlM (cs'.consume c) g') := by
  induction rs generalizing done g g' with
  | nil =>
    rw [List.append_nil]
    exact .ok h
  | cons r rs ih =>
    rw [List.foldlM_cons, List.foldlM_cons]
    refine (consume_inStep hT hnumbers hnodup h (hrs r List.mem_cons_self)).bind fun a a' ha => ?_
    have hrest := ih ha fun r' hr' => hrs r' (List.mem_cons_of_mem _ hr')
    rwa [List.append_assoc] at hrest

end Codecs

end MessageCodec
