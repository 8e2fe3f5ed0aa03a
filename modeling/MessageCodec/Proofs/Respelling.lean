import MessageCodec.Proofs.Sequence

/-!
# Keys spelled anew

The case that output keys are written in changes nothing but these keys. What is decoded in one case is respelled
by moving the value of each field from the key that it has to the keys that it gets, and so on in the messages that
a field holds; the decoders of two cases stay in step, record by record, up to that. As the keys of a field are
written together, the message with both spellings answers for each of them alike.
-/

namespace MessageCodec

open Codec Wire

def FieldPlan.heldPlan (plans : List MessagePlan) (f : FieldPlan) : Option MessagePlan :=
  match f.kind, f.child with
  | .message, some name => plans.find? fun p => p.fullName == name
  | _, _ => none

/-- Another spelling of keys: the key that a field has, and the keys that it gets. -/
structure Respelling where
  source : FieldPlan → String
  target : FieldPlan → List String

namespace Respelling

/-! ### Messages respelled -/

/-- A decoded message with the keys of its fields respelled. Other keys stay. -/
def value (σ : Respelling) (plans : List MessagePlan) (m : MessagePlan) (v : Value) : Value :=
  match v with
  | .mapping entries => .mapping (entries.attach.flatMap fun e =>
      match m.fields.find? fun f => σ.source f == e.1.1 with
      | none => [e.1]
      | some f => (σ.target f).map fun key =>
          (key, match f.heldPlan plans with
            | none => e.1.2
            | some held => σ.value plans held e.1.2))
  | .list items => .list (items.attach.map fun item => σ.value plans m item.1)
  | v => v
termination_by sizeOf v
decreasing_by
  · have hlt := List.sizeOf_lt_of_mem e.2
    obtain ⟨⟨key, w⟩, hmem⟩ := e
    simp only [Value.mapping.sizeOf_spec, Prod.mk.sizeOf_spec] at hlt ⊢
    omega
  · have hlt := List.sizeOf_lt_of_mem item.2
    simp only [Value.list.sizeOf_spec]
    omega

def held (σ : Respelling) (plans : List MessagePlan) (f : FieldPlan) (v : Value) : Value :=
  match f.heldPlan plans with
  | none => v
  | some held => σ.value plans held v

def entry (σ : Respelling) (plans : List MessagePlan) (m : MessagePlan) (e : String × Value) : Entries :=
  match m.fields.find? fun f => σ.source f == e.1 with
  | none => [e]
  | some f => (σ.target f).map fun key => (key, σ.held plans f e.2)

def entries (σ : Respelling) (plans : List MessagePlan) (m : MessagePlan) (t : Entries) : Entries :=
  t.flatMap (σ.entry plans m)

variable {σ : Respelling} {plans : List MessagePlan} {m : MessagePlan} {f : FieldPlan}

theorem value_mapping (t : Entries) : σ.value plans m (.mapping t) = .mapping (σ.entries plans m t) := by
  rw [value, entries]
  congr 1
  exact (List.flatMap_subtype fun e _ => rfl).trans (by rw [List.unattach_attach])

private theorem value_list (items : List Value) :
    σ.value plans m (.list items) = .list (items.map (σ.value plans m)) := by
  rw [value]
  congr 1
  exact (List.map_subtype fun item _ => rfl).trans (by rw [List.unattach_attach])

theorem held_list (items : List Value) : σ.held plans f (.list items) = .list (items.map (σ.held plans f)) := by
  unfold held
  cases f.heldPlan plans with
  | none => rw [List.map_id']
  | some held => exact value_list items

theorem held_of_element {type : ElementType} (h : Codecs.fieldType [f] f = .ok (.element type)) (v : Value) :
    σ.held plans f v = v := by
  have hnone : f.heldPlan plans = none := by
    unfold FieldPlan.heldPlan
    split
    · rename_i hkind hchild
      rw [Codecs.fieldType_eq_message_iff.2 ⟨hkind, hchild⟩] at h
      cases h
    · rfl
  rw [held, hnone]

theorem held_of_message {name : String} (h : Codecs.fieldType [f] f = .ok (.message name)) {p : MessagePlan}
    (hp : (plans.find? fun p => p.fullName == name) = some p) (v : Value) :
    σ.held plans f v = σ.value plans p v := by
  obtain ⟨hkind, hchild⟩ := Codecs.fieldType_eq_message_iff.1 h
  have hsome : f.heldPlan plans = some p := by
    rw [FieldPlan.heldPlan, hkind, hchild]
    exact hp
  rw [held, hsome]

/-! ### Entry by entry -/

/-- Respelling keeps the fields of a message apart. -/
structure Fits (σ : Respelling) (m : MessagePlan) : Prop where
  source_inj : ∀ f ∈ m.fields, ∀ g ∈ m.fields, σ.source f = σ.source g → f = g
  target_inj : ∀ f ∈ m.fields, ∀ g ∈ m.fields, ∀ key ∈ σ.target f, key ∈ σ.target g → f = g
  nodup : ∀ f ∈ m.fields, (σ.target f).Nodup
  ne_nil : ∀ f ∈ m.fields, σ.target f ≠ []
  unknown_source : ∀ f ∈ m.fields, σ.source f ≠ unknownKey
  unknown_target : ∀ f ∈ m.fields, unknownKey ∉ σ.target f

/-- Entries of fields, and of kept records. -/
def Sourced (σ : Respelling) (m : MessagePlan) (t : Entries) : Prop :=
  ∀ e ∈ t, e.1 = unknownKey ∨ ∃ f ∈ m.fields, e.1 = σ.source f

theorem entry_source (h : σ.Fits m) (hf : f ∈ m.fields) {e : String × Value} (he : e.1 = σ.source f) :
    σ.entry plans m e = (σ.target f).map fun key => (key, σ.held plans f e.2) := by
  have hfind : (m.fields.find? fun g => σ.source g == e.1) = some f := by
    refine find?_of_unique hf (by rw [he, beq_self_eq_true]) ?_
    intro g hg hsame
    rw [beq_iff_eq] at hsame
    exact h.source_inj g hg f hf (hsame.trans he)
  rw [entry, hfind]

theorem entry_unknown (h : σ.Fits m) {e : String × Value} (he : e.1 = unknownKey) : σ.entry plans m e = [e] := by
  have hfind : (m.fields.find? fun g => σ.source g == e.1) = none := by
    rw [List.find?_eq_none]
    intro g hg hsame
    rw [beq_iff_eq, he] at hsame
    exact h.unknown_source g hg hsame
  rw [entry, hfind]

theorem entries_cons (e : String × Value) (t : Entries) :
    σ.entries plans m (e :: t) = σ.entry plans m e ++ σ.entries plans m t :=
  List.flatMap_cons

/-- No entry but that of a field is respelled to its keys. -/
theorem not_mem_target (h : σ.Fits m) (hf : f ∈ m.fields) {e : String × Value}
    (he : e.1 = unknownKey ∨ ∃ g ∈ m.fields, e.1 = σ.source g) (hne : e.1 ≠ σ.source f) :
    ∀ d ∈ σ.entry plans m e, d.1 ∉ σ.target f := by
  intro d hd hkey
  rcases he with hunknown | ⟨g, hg, hsource⟩
  · rw [entry_unknown h hunknown, List.mem_singleton] at hd
    exact h.unknown_target f hf (hunknown ▸ hd ▸ hkey)
  · rw [entry_source h hg hsource] at hd
    obtain ⟨key, hmem, rfl⟩ := List.mem_map.1 hd
    exact hne (h.target_inj g hg f hf key hmem hkey ▸ hsource)

theorem not_mem_unknown (h : σ.Fits m) {e : String × Value} (he : ∃ g ∈ m.fields, e.1 = σ.source g) :
    ∀ d ∈ σ.entry plans m e, d.1 ≠ unknownKey := by
  intro d hd heq
  obtain ⟨g, hg, hsource⟩ := he
  rw [entry_source h hg hsource] at hd
  obtain ⟨key, hmem, rfl⟩ := List.mem_map.1 hd
  exact h.unknown_target g hg (heq ▸ hmem)

/-- The value of a field is put under all of its keys together. -/
theorem entries_put (h : σ.Fits m) (hf : f ∈ m.fields) {t : Entries} (ht : σ.Sourced m t) (v : Value) :
    σ.entries plans m (t.put (σ.source f) v) = (σ.entries plans m t).assign (σ.target f) (σ.held plans f v) := by
  induction t with
  | nil =>
    have hrow : σ.entry plans m (σ.source f, v) = (σ.target f).map fun key => (key, σ.held plans f v) :=
      entry_source h hf rfl
    rw [Table.put, entries_cons, hrow]
    exact (List.append_nil _).trans (Entries.assign_nil (h.nodup f hf) _).symm
  | cons e t ih =>
    rw [Sourced, List.forall_mem_cons] at ht
    rw [Table.put]
    by_cases hkey : e.1 = σ.source f
    · have hrow : σ.entry plans m (σ.source f, v) = (σ.target f).map fun key => (key, σ.held plans f v) :=
        entry_source h hf rfl
      rw [if_pos (beq_iff_eq.2 hkey), entries_cons, entries_cons, hrow, entry_source h hf hkey,
        Entries.assign_row (h.nodup f hf)]
    · rw [if_neg (by simpa using hkey), entries_cons, entries_cons, ih ht.2,
        Entries.assign_append (not_mem_target h hf ht.1 hkey)]

/-- The kept records stay under their key. -/
theorem entries_put_unknown (h : σ.Fits m) {t : Entries} (ht : σ.Sourced m t) (v : Value) :
    σ.entries plans m (t.put unknownKey v) = (σ.entries plans m t).put unknownKey v := by
  have hrow : σ.entry plans m (unknownKey, v) = [(unknownKey, v)] := entry_unknown h rfl
  induction t with
  | nil =>
    rw [Table.put, entries_cons, hrow]
    rfl
  | cons e t ih =>
    rw [Sourced, List.forall_mem_cons] at ht
    rw [Table.put]
    by_cases hkey : e.1 = unknownKey
    · rw [if_pos (beq_iff_eq.2 hkey), entries_cons, entries_cons, hrow, entry_unknown h hkey, List.singleton_append,
        List.singleton_append, Table.put, if_pos (beq_iff_eq.2 hkey)]
    · rw [if_neg (by simpa using hkey), entries_cons, entries_cons, ih ht.2,
        Table.put_append (not_mem_unknown h (ht.1.resolve_left hkey))]

private theorem get?_row {keys : List String} {key : String} (hkey : key ∈ keys) (v : Value) (rest : Entries) :
    Table.get? (keys.map (fun key => (key, v)) ++ rest) key = some v := by
  induction keys with
  | nil => cases hkey
  | cons first keys ih =>
    rw [List.map_cons, List.cons_append, Table.get?_cons]
    by_cases hfirst : first = key
    · rw [if_pos hfirst]
    · rw [if_neg hfirst, ih ((List.mem_cons.1 hkey).resolve_left fun heq => hfirst heq.symm)]

theorem get?_entries (h : σ.Fits m) (hf : f ∈ m.fields) {key : String} (hkey : key ∈ σ.target f) {t : Entries}
    (ht : σ.Sourced m t) : (σ.entries plans m t).get? key = (t.get? (σ.source f)).map (σ.held plans f) := by
  induction t with
  | nil => rfl
  | cons e t ih =>
    rw [Sourced, List.forall_mem_cons] at ht
    rw [entries_cons, Table.get?_cons]
    by_cases hsource : e.1 = σ.source f
    · rw [if_pos hsource, entry_source h hf hsource, get?_row hkey]
      rfl
    · have hother : ∀ d ∈ σ.entry plans m e, d.1 ≠ key := fun d hd heq =>
        not_mem_target h hf ht.1 hsource d hd (heq ▸ hkey)
      rw [if_neg hsource, Table.get?_append hother, ih ht.2]

theorem get?_entries_unknown (h : σ.Fits m) {t : Entries} (ht : σ.Sourced m t) :
    (σ.entries plans m t).get? unknownKey = t.get? unknownKey := by
  induction t with
  | nil => rfl
  | cons e t ih =>
    rw [Sourced, List.forall_mem_cons] at ht
    rw [entries_cons, Table.get?_cons]
    by_cases hunknown : e.1 = unknownKey
    · rw [if_pos hunknown, entry_unknown h hunknown, List.singleton_append, Table.get?_cons, if_pos hunknown]
    · rw [if_neg hunknown, Table.get?_append (not_mem_unknown h (ht.1.resolve_left hunknown)), ih ht.2]

theorem sourced_put {t : Entries} (ht : σ.Sourced m t) {key : String}
    (hkey : key = unknownKey ∨ ∃ f ∈ m.fields, key = σ.source f) (v : Value) : σ.Sourced m (t.put key v) := by
  intro e he
  rcases Table.mem_put he with hmem | rfl
  · exact ht e hmem
  · exact hkey

/-! ### Tables in step -/

/-- What two decoders have gathered, up to the spelling of keys. A repeated field holds a list, so it can be
appended to. -/
structure Mirrors (σ : Respelling) (plans : List MessagePlan) (m : MessagePlan) (t t' : Entries) : Prop where
  sourced : σ.Sourced m t
  listed : ∀ f ∈ m.fields, f.repeated = true → ∀ v, t.get? (σ.source f) = some v → ∃ us, v = .list us
  entries_eq : t' = σ.entries plans m t

theorem Mirrors.put (h : σ.Fits m) {t t' : Entries} (hmirrors : σ.Mirrors plans m t t') (hf : f ∈ m.fields) {v : Value}
    (hv : f.repeated = true → ∃ us, v = .list us) :
    σ.Mirrors plans m (t.put (σ.source f) v) (t'.assign (σ.target f) (σ.held plans f v)) where
  sourced := sourced_put hmirrors.sourced (.inr ⟨f, hf, rfl⟩) v
  listed g hg hrepeated w hw := by
    rw [Table.get?_put] at hw
    split at hw
    · rename_i hsame
      obtain rfl := h.source_inj f hf g hg hsame
      obtain rfl := Option.some.inj hw
      exact hv hrepeated
    · exact hmirrors.listed g hg hrepeated w hw
  entries_eq := by rw [hmirrors.entries_eq, entries_put h hf hmirrors.sourced]

theorem Mirrors.get? (h : σ.Fits m) {t t' : Entries} (hmirrors : σ.Mirrors plans m t t') (hf : f ∈ m.fields)
    {key : String} (hkey : key ∈ σ.target f) : t'.get? key = (t.get? (σ.source f)).map (σ.held plans f) := by
  rw [hmirrors.entries_eq, get?_entries h hf hkey hmirrors.sourced]

theorem Mirrors.append (h : σ.Fits m) {t t' : Entries} (hmirrors : σ.Mirrors plans m t t') (hf : f ∈ m.fields)
    (hrepeated : f.repeated = true) (values : List Value) :
    ∃ after after', t.append [σ.source f] values = .ok after ∧
      t'.append (σ.target f) (values.map (σ.held plans f)) = .ok after' ∧ σ.Mirrors plans m after after' := by
  obtain ⟨list, hlist⟩ : ∃ list : Option (List Value), t.get? (σ.source f) = list.map .list := by
    cases hget : t.get? (σ.source f) with
    | none => exact ⟨none, rfl⟩
    | some v =>
      obtain ⟨us, rfl⟩ := hmirrors.listed f hf hrepeated v hget
      exact ⟨some us, rfl⟩
  -- the keys of a field have always been written together, so all of them hold the list that the one key holds
  have hone : ∀ key ∈ [σ.source f], t.get? key = list.map .list := by
    rw [List.forall_mem_singleton]
    exact hlist
  have hall : ∀ key ∈ σ.target f, t'.get? key = (list.map (List.map (σ.held plans f))).map .list := by
    intro key hkey
    rw [hmirrors.get? h hf hkey, hlist, Option.map_map, Option.map_map]
    congr 1
    funext us
    exact held_list us
  have hjoin : Value.list ((list.map (List.map (σ.held plans f))).getD [] ++ values.map (σ.held plans f)) =
      σ.held plans f (.list (list.getD [] ++ values)) := by
    rw [held_list, List.map_append]
    cases list <;> rfl
  refine ⟨_, _, Entries.append_eq_assign (List.nodup_singleton _) hone values,
    Entries.append_eq_assign (h.nodup f hf) hall _, ?_⟩
  rw [hjoin]
  exact hmirrors.put h hf fun _ => ⟨_, rfl⟩

theorem Mirrors.foldl_assign (h : σ.Fits m) {t t' : Entries} (hmirrors : σ.Mirrors plans m t t') (hf : f ∈ m.fields)
    (hsingular : f.repeated = false) (values : List Value) :
    σ.Mirrors plans m (values.foldl (fun acc v => Entries.assign [σ.source f] acc v) t)
      ((values.map (σ.held plans f)).foldl (fun acc v => Entries.assign (σ.target f) acc v) t') := by
  induction values generalizing t t' with
  | nil => exact hmirrors
  | cons v values ih =>
    apply ih
    apply hmirrors.put h hf
    rw [hsingular]
    intro hfalse
    cases hfalse

theorem Mirrors.fillDefault (h : σ.Fits m) {t t' : Entries} (hmirrors : σ.Mirrors plans m t t') (hf : f ∈ m.fields)
    {v : Value} (hv : f.repeated = true → ∃ us, v = .list us) (hfixed : σ.held plans f v = v) :
    σ.Mirrors plans m (t.fillDefault [σ.source f] v) (t'.fillDefault (σ.target f) v) := by
  obtain ⟨first, rest, htarget⟩ := List.exists_cons_of_ne_nil (h.ne_nil f hf)
  have hfirst := hmirrors.get? h hf (htarget ▸ List.mem_cons_self : first ∈ σ.target f)
  have hput := hmirrors.put h hf hv
  rw [hfixed] at hput
  rw [htarget] at hput ⊢
  -- only the first key is looked at, and it is there just when the one key is
  rw [Entries.fillDefault, Entries.fillDefault, Table.has_eq_isSome, Table.has_eq_isSome, hfirst, Option.isSome_map]
  split
  · exact hmirrors
  · exact hput

theorem Mirrors.attachUnknown (h : σ.Fits m) {t t' : Entries} (hmirrors : σ.Mirrors plans m t t')
    (unknown : List UInt8) : σ.Mirrors plans m (t.attachUnknown unknown) (t'.attachUnknown unknown) := by
  rw [Entries.attachUnknown, Entries.attachUnknown]
  split
  · exact hmirrors
  · refine ⟨sourced_put hmirrors.sourced (.inl rfl) _, fun f hf hrepeated v hv => ?_, ?_⟩
    · rw [Table.get?_put, if_neg (h.unknown_source f hf).symm] at hv
      exact hmirrors.listed f hf hrepeated v hv
    · rw [hmirrors.entries_eq, entries_put_unknown h hmirrors.sourced]

theorem Mirrors.get?_unknown (h : σ.Fits m) {t t' : Entries} (hmirrors : σ.Mirrors plans m t t') :
    t.get? unknownKey = t'.get? unknownKey := by
  rw [hmirrors.entries_eq, get?_entries_unknown h hmirrors.sourced]

/-- A decoded message and the same one respelled. -/
def Respelled (σ : Respelling) (plans : List MessagePlan) (m : MessagePlan) (v v' : Value) : Prop :=
  ∃ t t', v = .mapping t ∧ v' = .mapping t' ∧ σ.Mirrors plans m t t'

theorem Respelled.eq_value {v v' : Value} (h : σ.Respelled plans m v v') : v' = σ.value plans m v := by
  obtain ⟨t, t', rfl, rfl, hmirrors⟩ := h
  rw [value_mapping, hmirrors.entries_eq]

end Respelling

/-! ### Decoders in step -/

theorem Codec.Field.arm_of_message {f : Field} {child : String} (htype : f.type = .message child) {number code : Nat}
    {arm : Arm} (h : f.arm? number code = some arm) : arm = .message child := by
  rw [Field.arm?, htype] at h
  dsimp only at h
  split at h
  · cases h
  · split at h
    · exact (Option.some.inj h).symm
    · cases h

namespace Codecs

variable {σ : Respelling} {plans : List MessagePlan} {m : MessagePlan}

/-- A field of a plan as two decoders have it. They differ in its output keys. -/
def Twins (m : MessagePlan) (choice choice' : DecodeCase) (g g' : Field) : Prop :=
  ∃ f ∈ m.fields, ∃ type, fieldType [f] f = .ok type ∧ g = f.ready choice type ∧ g' = f.ready choice' type

theorem forall₂_twins {settings settings' : Settings} (hstems : (m.fields.map fun f => m.stemOf f.number).Nodup)
    {c c' : Codec} (hc : codecOf settings m = .ok c) (hc' : codecOf settings' m = .ok c') :
    List.Forall₂ (Twins m settings.decodeCase settings'.decodeCase) c.fields c'.fields := by
  have hown := (List.forall₂_and_left m.fields c'.fields).2 ⟨fun f hf => hf, forall₂_own hstems hc'⟩
  refine forall₂_trans (forall₂_own hstems hc).flip hown ?_
  intro g f g' hready hready'
  obtain ⟨type, htype, hg⟩ := hready
  obtain ⟨hf, type', htype', hg'⟩ := hready'
  obtain rfl := Except.ok.inj (htype.symm.trans htype')
  exact ⟨f, hf, type, htype, hg, hg'⟩

/-- Twins take the same records in the same way. -/
theorem arm?_twins {choice choice' : DecodeCase} {c c' : Codec}
    (h : List.Forall₂ (Twins m choice choice') c.fields c'.fields) (number code : Nat) :
    Option.Rel (fun x y => Twins m choice choice' x.1 y.1 ∧ x.1.arm? number code = some x.2 ∧ y.2 = x.2)
      (c.arm? number code) (c'.arm? number code) := by
  refine findSome?_forall₂ h ?_
  intro g g' htwins
  have hsame : g'.arm? number code = g.arm? number code := by
    obtain ⟨f, -, type, -, rfl, rfl⟩ := htwins
    rfl
  rw [hsame]
  cases harm : g.arm? number code with
  | none => exact .none
  | some arm => exact .some ⟨htwins, harm, rfl⟩

private theorem child_twins {settings settings' : Settings} {cs cs' : Codecs} (hcs : ofPlans settings plans = .ok cs)
    (hcs' : ofPlans settings' plans = .ok cs') (name : String) :
    Matches (fun c c' => ∃ p ∈ plans, (plans.find? fun p => p.fullName == name) = some p ∧
      codecOf settings p = .ok c ∧ codecOf settings' p = .ok c') (cs.child name) (cs'.child name) := by
  have hfind {settings : Settings} {cs : Codecs} (hcs : ofPlans settings plans = .ok cs) :
      Option.Rel (fun p c => codecOf settings p = .ok c) (plans.find? fun p => p.fullName == name) (cs.codec? name) :=
    find?_forall₂ (ofPlans_eq_ok.1 hcs).2 fun p c hc => by rw [fullName_of_codecOf hc]
  have hrel := hfind hcs
  have hrel' := hfind hcs'
  rw [child, child]
  cases hp : plans.find? fun p => p.fullName == name with
  | none =>
    rw [hp] at hrel hrel'
    obtain ⟨-, hnone⟩ | ⟨_, _, hcontra, -⟩ := eq_none_or_of_rel hrel
    · obtain ⟨-, hnone'⟩ | ⟨_, _, hcontra, -⟩ := eq_none_or_of_rel hrel'
      · rw [hnone, hnone']
        exact .error _
      · cases hcontra
    · cases hcontra
  | some p =>
    rw [hp] at hrel hrel'
    obtain ⟨hcontra, -⟩ | ⟨_, c, hsome, hc, hcodec⟩ := eq_none_or_of_rel hrel
    · cases hcontra
    obtain ⟨hcontra, -⟩ | ⟨_, c', hsome', hc', hcodec'⟩ := eq_none_or_of_rel hrel'
    · cases hcontra
    obtain rfl := Option.some.inj hsome
    obtain rfl := Option.some.inj hsome'
    rw [hc, hc']
    exact .ok ⟨p, List.mem_of_find?_eq_some hp, rfl, hcodec, hcodec'⟩

/-- Twins find the same values in a record, up to spelling, if the messages in it are decoded alike. -/
theorem valuesOf_twins {settings settings' : Settings} {cs cs' : Codecs} (hcs : ofPlans settings plans = .ok cs)
    (hcs' : ofPlans settings' plans = .ok cs') {f : FieldPlan} {type : FieldType} (htype : fieldType [f] f = .ok type)
    {choice : DecodeCase} {number code : Nat} {arm : Arm} (harm : (f.ready choice type).arm? number code = some arm)
    {payload : List UInt8}
    (hblocks : ∀ p ∈ plans, ∀ c c', codecOf settings p = .ok c → codecOf settings' p = .ok c' →
      ∀ block : List UInt8, block.length < payload.length →
        Matches (fun v v' => v' = σ.value plans p v) (cs.decode c block) (cs'.decode c' block)) :
    Matches (fun vs vs' => vs' = vs.map (σ.held plans f)) (cs.valuesOf arm payload) (cs'.valuesOf arm payload) := by
  cases type with
  | element element =>
    have hheld : σ.held plans f = id := funext (Respelling.held_of_element htype)
    rw [hheld]
    cases arm with
    | packed _ => exact .ok (List.map_id _).symm
    | single _ => exact .ok (List.map_id _).symm
    | message child => cases Field.type_of_arm?_message harm
  | message name =>
    obtain rfl := Field.arm_of_message rfl harm
    rw [valuesOf, valuesOf]
    refine (child_twins hcs hcs' name).bind ?_
    intro c c' hchild
    obtain ⟨p, hp, hfind, hc, hc'⟩ := hchild
    cases hread : readDelimited payload with
    | none => exact .ok rfl
    | some found =>
      obtain ⟨block, rest⟩ := found
      have hlt := readDelimited_lt hread
      refine (hblocks p hp c c' hc hc' block (by omega)).bind ?_
      intro v v' hv
      rw [hv, ← Respelling.held_of_message htype hfind]
      exact .ok rfl

/-- What two decoders have gathered of a message. -/
def Mirrored (σ : Respelling) (plans : List MessagePlan) (m : MessagePlan) (g g' : Gathered) : Prop :=
  σ.Mirrors plans m g.entries g'.entries ∧ g'.unknown = g.unknown

/-- The respelling from one case to another. -/
structure Respells (σ : Respelling) (choice choice' : DecodeCase) : Prop where
  source : ∀ f, FieldPlan.outputKeys choice f = [σ.source f]
  target : ∀ f, FieldPlan.outputKeys choice' f = σ.target f

variable {choice choice' : DecodeCase}

private theorem take_mirrored (hσ : Respells σ choice choice') (h : σ.Fits m) {g g' : Gathered}
    (hmirrored : Mirrored σ plans m g g') {f : FieldPlan} (hf : f ∈ m.fields) (type : FieldType) (values : List Value) :
    Matches (Mirrored σ plans m) (g.take (f.ready choice type) values)
      (g'.take (f.ready choice' type) (values.map (σ.held plans f))) := by
  obtain ⟨hmirrors, hunknown⟩ := hmirrored
  cases hrepeated : f.repeated with
  | true =>
    obtain ⟨after, after', hafter, hafter', hboth⟩ := hmirrors.append h hf hrepeated values
    rw [Gathered.take_of_repeated g hrepeated, Gathered.take_of_repeated g' hrepeated, Gathered.append, Gathered.append,
      FieldPlan.ready_outputs, FieldPlan.ready_outputs, hσ.source, hσ.target, hafter, hafter']
    exact .ok ⟨hboth, hunknown⟩
  | false =>
    have hsingular (choice : DecodeCase) : ¬ (f.ready choice type).repeated = true := by
      rw [Bool.not_eq_true]
      exact hrepeated
    rw [Gathered.take, if_neg (hsingular choice), Gathered.take, if_neg (hsingular choice'), FieldPlan.ready_outputs,
      FieldPlan.ready_outputs, hσ.source, hσ.target]
    exact .ok ⟨hmirrors.foldl_assign h hf hrepeated values, hunknown⟩

private theorem consume_mirrored (hσ : Respells σ choice choice') (h : σ.Fits m) {cs cs' : Codecs} {c c' : Codec}
    (htwins : List.Forall₂ (Twins m choice choice') c.fields c'.fields) {r : Slice}
    (hvalues : ∀ f type, fieldType [f] f = .ok type → ∀ arm, (f.ready choice type).arm? r.number r.form.code = some arm →
      Matches (fun vs vs' => vs' = vs.map (σ.held plans f)) (cs.valuesOf arm r.payload) (cs'.valuesOf arm r.payload))
    {g g' : Gathered} (hmirrored : Mirrored σ plans m g g') :
    Matches (Mirrored σ plans m) (cs.consume c g r) (cs'.consume c' g' r) := by
  rw [consume, consume]
  obtain ⟨hnone, hnone'⟩ | ⟨⟨_, arm⟩, ⟨_, arm'⟩, hsome, hsome', ⟨f, hf, type, htype, rfl, rfl⟩, harm, hsame⟩ :=
    eq_none_or_of_rel (arm?_twins htwins r.number r.form.code)
  · rw [hnone, hnone']
    refine .ok ⟨hmirrored.1, ?_⟩
    rw [Gathered.keep, Gathered.keep, hmirrored.2]
  · obtain rfl : arm' = arm := hsame
    rw [hsome, hsome']
    refine (hvalues f type htype arm' harm).bind ?_
    intro values _ heq
    rw [heq]
    exact take_mirrored hσ h hmirrored hf type values

theorem foldlM_mirrored (hσ : Respells σ choice choice') (h : σ.Fits m) {cs cs' : Codecs} {c c' : Codec}
    (htwins : List.Forall₂ (Twins m choice choice') c.fields c'.fields) {rs : List Slice}
    (hvalues : ∀ r ∈ rs, ∀ f type, fieldType [f] f = .ok type →
      ∀ arm, (f.ready choice type).arm? r.number r.form.code = some arm →
      Matches (fun vs vs' => vs' = vs.map (σ.held plans f)) (cs.valuesOf arm r.payload) (cs'.valuesOf arm r.payload))
    {g g' : Gathered} (hmirrored : Mirrored σ plans m g g') :
    Matches (Mirrored σ plans m) (rs.foldlM (cs.consume c) g) (rs.foldlM (cs'.consume c') g') := by
  induction rs generalizing g g' with
  | nil => exact .ok hmirrored
  | cons r rs ih =>
    rw [List.forall_mem_cons] at hvalues
    rw [List.foldlM_cons, List.foldlM_cons]
    refine (consume_mirrored hσ h htwins hvalues.1 hmirrored).bind ?_
    intro a a' ha
    exact ih hvalues.2 ha

/-- What a field falls back to holds no keys. -/
theorem held_of_fallback {f : FieldPlan} {type : FieldType} (htype : fieldType [f] f = .ok type) {v : Value}
    (h : (f.ready choice type).fallback = some v) :
    (f.repeated = true → ∃ us, v = .list us) ∧ σ.held plans f v = v := by
  rw [Field.fallback] at h
  split at h
  · rw [← Option.some.inj h]
    exact ⟨fun _ => ⟨[], rfl⟩, Respelling.held_list []⟩
  · rename_i hsingular
    refine ⟨fun hrepeated => absurd hrepeated hsingular, ?_⟩
    cases type with
    | element element => exact Respelling.held_of_element htype v
    | message child => cases h

private theorem fillField_mirrors (hσ : Respells σ choice choice') (h : σ.Fits m) {g g' : Field}
    (htwins : Twins m choice choice' g g') {t t' : Entries} (hmirrors : σ.Mirrors plans m t t') :
    σ.Mirrors plans m (fillField t g) (fillField t' g') := by
  obtain ⟨f, hf, type, htype, rfl, rfl⟩ := htwins
  have hsame : (f.ready choice' type).fallback = (f.ready choice type).fallback := rfl
  rw [fillField_eq, fillField_eq, hsame, FieldPlan.ready_outputs, FieldPlan.ready_outputs, hσ.source, hσ.target]
  cases hfallback : (f.ready choice type).fallback with
  | none => exact hmirrors
  | some v =>
    obtain ⟨hlist, hheld⟩ := held_of_fallback htype hfallback
    exact hmirrors.fillDefault h hf hlist hheld

private theorem foldl_fillField_mirrors (hσ : Respells σ choice choice') (h : σ.Fits m) {fields fields' : List Field}
    (htwins : List.Forall₂ (Twins m choice choice') fields fields') {t t' : Entries}
    (hmirrors : σ.Mirrors plans m t t') :
    σ.Mirrors plans m (fields.foldl fillField t) (fields'.foldl fillField t') := by
  induction htwins generalizing t t' with
  | nil => exact hmirrors
  | cons hfirst _ ih => exact ih (fillField_mirrors hσ h hfirst hmirrors)

/-- The messages that two decoders finish. -/
theorem finish_mirrored (hσ : Respells σ choice choice') (h : σ.Fits m) {c c' : Codec}
    (htwins : List.Forall₂ (Twins m choice choice') c.fields c'.fields) (fill : Bool) {g g' : Gathered}
    (hmirrored : Mirrored σ plans m g g') : σ.Respelled plans m (finish fill c g) (finish fill c' g') := by
  refine ⟨_, _, rfl, rfl, ?_⟩
  rw [hmirrored.2]
  apply Respelling.Mirrors.attachUnknown h
  split
  · exact foldl_fillField_mirrors hσ h htwins hmirrored.1
  · exact hmirrored.1

/-- Two decoders of a message stay in step on all bytes. -/
theorem decode_mirrors {settings settings' : Settings} (hσ : Respells σ settings.decodeCase settings'.decodeCase)
    (hfill : settings'.fillDefaults = settings.fillDefaults) {cs cs' : Codecs} (hcs : ofPlans settings plans = .ok cs)
    (hcs' : ofPlans settings' plans = .ok cs')
    (hplans : ∀ p ∈ m :: plans, (p.fields.map fun f => p.stemOf f.number).Nodup ∧ σ.Fits p) {c c' : Codec}
    (hc : codecOf settings m = .ok c) (hc' : codecOf settings' m = .ok c') (w : List UInt8) :
    Matches (σ.Respelled plans m) (cs.decode c w) (cs'.decode c' w) := by
  -- a message in a record is a proper part of the bytes, so the induction is on their length
  induction hn : w.length using Nat.strongRecOn generalizing m c c' w with
  | _ n ih =>
    obtain ⟨hstems, hfits⟩ := hplans m List.mem_cons_self
    have htwins := forall₂_twins hstems hc hc'
    obtain ⟨rs, htiles⟩ := exists_tiles w
    rw [decode, decode, gather_of_tiles htiles, gather_of_tiles htiles]
    have hfold : Matches (Mirrored σ plans m) (rs.foldlM (cs.consume c) {}) (rs.foldlM (cs'.consume c') {}) := by
      refine foldlM_mirrored hσ hfits htwins (fun r hr f type htype arm harm => ?_) ⟨⟨?_, ?_, rfl⟩, rfl⟩
      · refine valuesOf_twins hcs hcs' htype harm fun p hp inner inner' hinner hinner' block hblock => ?_
        have hlen := length_payload_le htiles hr
        refine (ih block.length (by omega) (fun q hq => hplans q ?_) hinner hinner' block rfl).imp fun v v' h => h.eq_value
        rcases List.mem_cons.1 hq with rfl | hmem
        · exact List.mem_cons_of_mem _ hp
        · exact List.mem_cons_of_mem _ hmem
      · exact List.forall_mem_nil _
      · intro f _ _ v hv
        cases hv
    refine hfold.bind ?_
    intro g g' hmirrored
    rw [(ofPlans_eq_ok.1 hcs).1, (ofPlans_eq_ok.1 hcs').1, hfill]
    exact .ok (finish_mirrored hσ hfits htwins settings.fillDefaults hmirrored)

end Codecs

/-! ### The three cases -/

section Cases

variable {plans : List MessagePlan} {m : MessagePlan} {source : FieldPlan → String}

namespace Respelling

def into (source : FieldPlan → String) (choice : DecodeCase) : Respelling :=
  ⟨source, FieldPlan.outputKeys choice⟩

theorem fits_into (h : m.Separable .both) (hsource : ∀ f : FieldPlan, source f ∈ f.outputKeys .both)
    (choice : DecodeCase) : (into source choice).Fits m where
  source_inj f hf g hg hsame := by
    apply h.eq_of_mem hf hg (hsource f)
    rw [show source f = source g from hsame]
    exact hsource g
  target_inj f hf g hg key hkey hkey' :=
    h.eq_of_mem hf hg (FieldPlan.mem_both_of_mem_outputKeys hkey) (FieldPlan.mem_both_of_mem_outputKeys hkey')
  nodup f _ := f.outputKeys_nodup choice
  ne_nil f _ := f.outputKeys_ne_nil choice
  unknown_source f hf heq := by
    apply h.unknown f hf
    rw [← show source f = unknownKey from heq]
    exact hsource f
  unknown_target f hf hkey := h.unknown f hf (FieldPlan.mem_both_of_mem_outputKeys hkey)

theorem exists_of_mem_entries {σ : Respelling} (h : σ.Fits m) {t : Entries} (ht : σ.Sourced m t) {e : String × Value}
    (he : e ∈ σ.entries plans m t) : e.1 = unknownKey ∨ ∃ f ∈ m.fields, e.1 ∈ σ.target f := by
  obtain ⟨d, hd, he⟩ := List.mem_flatMap.1 he
  rcases ht d hd with hunknown | ⟨f, hf, hkey⟩
  · rw [entry_unknown h hunknown, List.mem_singleton] at he
    exact .inl (he ▸ hunknown)
  · rw [entry_source h hf hkey] at he
    obtain ⟨key, hkey, rfl⟩ := List.mem_map.1 he
    exact .inr ⟨f, hf, hkey⟩

/-- No key is lost where both spellings are written. -/
theorem isSome_of_mirrors (h : m.Separable .both) (hsource : ∀ f : FieldPlan, source f ∈ f.outputKeys .both)
    {t both : Entries} (hmirrors : (into source .both).Mirrors plans m t both) {key : String}
    (hsome : (t.get? key).isSome = true) : (both.get? key).isSome = true := by
  have hfits := fits_into h hsource .both
  obtain ⟨v, hv⟩ := Option.isSome_iff_exists.1 hsome
  rcases hmirrors.sourced _ (Table.mem_of_get? hv) with hkey | ⟨f, hf, hkey⟩
  · obtain rfl : key = unknownKey := hkey
    rw [← hmirrors.get?_unknown hfits]
    exact hsome
  · obtain rfl : key = source f := hkey
    rw [hmirrors.get? hfits hf (hsource f), Option.isSome_map]
    exact hsome

end Respelling

/-- One message decoded in each case: the last one answers for both spellings as the others do for theirs. -/
structure MessagePlan.Agree (plans : List MessagePlan) (m : MessagePlan) (snake camel both : Entries) : Prop where
  alike : ∀ f ∈ m.fields, both.get? f.name = both.get? f.jsonKey
  of_snake : ∀ f ∈ m.fields,
    both.get? f.name = (snake.get? f.name).map ((Respelling.into FieldPlan.name .both).held plans f)
  of_camel : ∀ f ∈ m.fields,
    both.get? f.jsonKey = (camel.get? f.jsonKey).map ((Respelling.into FieldPlan.jsonKey .both).held plans f)
  keys : ∀ key, both.has key = (snake.has key || camel.has key)
  unknown : snake.get? unknownKey = both.get? unknownKey ∧ camel.get? unknownKey = both.get? unknownKey

theorem MessagePlan.Separable.agree (hm : m.Separable .both) {snake camel both : Entries}
    (hsnake : (Respelling.into FieldPlan.name .both).Mirrors plans m snake both)
    (hcamel : (Respelling.into FieldPlan.jsonKey .both).Mirrors plans m camel both) :
    m.Agree plans snake camel both := by
  have hfits := Respelling.fits_into hm FieldPlan.name_mem_outputKeys .both
  have hfits' := Respelling.fits_into hm FieldPlan.jsonKey_mem_outputKeys .both
  have hname (f : FieldPlan) (hf : f ∈ m.fields) := hsnake.get? hfits hf f.name_mem_outputKeys
  have hjson (f : FieldPlan) (hf : f ∈ m.fields) := hcamel.get? hfits' hf f.jsonKey_mem_outputKeys
  refine ⟨fun f hf => ?_, hname, hjson, fun key => ?_, hsnake.get?_unknown hfits, hcamel.get?_unknown hfits'⟩
  · rw [hname f hf, hsnake.get? hfits hf f.jsonKey_mem_outputKeys]
  rw [Table.has_eq_isSome, Table.has_eq_isSome, Table.has_eq_isSome, Bool.eq_iff_iff, Bool.or_eq_true]
  constructor
  · intro hsome
    obtain ⟨v, hv⟩ := Option.isSome_iff_exists.1 hsome
    have hmem := Table.mem_of_get? hv
    rw [hsnake.entries_eq] at hmem
    rcases Respelling.exists_of_mem_entries hfits hsnake.sourced hmem with rfl | ⟨f, hf, hkey⟩
    · rw [hsnake.get?_unknown hfits]
      exact .inl hsome
    · rcases FieldPlan.mem_outputKeys_both.1 hkey with rfl | rfl
      · rw [hname f hf, Option.isSome_map] at hsome
        exact .inl hsome
      · rw [hjson f hf, Option.isSome_map] at hsome
        exact .inr hsome
  · intro hsome
    rcases hsome with hsome | hsome
    · exact Respelling.isSome_of_mirrors hm FieldPlan.name_mem_outputKeys hsnake hsome
    · exact Respelling.isSome_of_mirrors hm FieldPlan.jsonKey_mem_outputKeys hcamel hsome

private theorem MessagePlan.Separable.of_both (h : m.Separable .both) (choice : DecodeCase) : m.Separable choice where
  numbers := h.numbers
  stems := h.stems
  outputs := h.outputs.imp fun houtputs key hkey hkey' =>
    houtputs key (FieldPlan.mem_both_of_mem_outputKeys hkey) (FieldPlan.mem_both_of_mem_outputKeys hkey')
  unknown f hf hkey := h.unknown f hf (FieldPlan.mem_both_of_mem_outputKeys hkey)

namespace Codecs

/-- The decoder of a case with one spelling, beside that of any case. -/
theorem decode_into {settings : Settings} {cs : DecodeCase → Codecs}
    (hcs : ∀ choice, ofPlans { settings with decodeCase := choice } plans = .ok (cs choice))
    (hplans : ∀ p ∈ m :: plans, p.Separable .both) {c : DecodeCase → Codec}
    (hc : ∀ choice, codecOf { settings with decodeCase := choice } m = .ok (c choice)) {choice : DecodeCase}
    (hsource : ∀ f : FieldPlan, f.outputKeys choice = [source f]) (choice' : DecodeCase) (w : List UInt8) :
    Matches ((Respelling.into source choice').Respelled plans m) ((cs choice).decode (c choice) w)
      ((cs choice').decode (c choice') w) := by
  have hσ : Respells (Respelling.into source choice') { settings with decodeCase := choice }.decodeCase
      { settings with decodeCase := choice' }.decodeCase := ⟨hsource, fun f => rfl⟩
  refine decode_mirrors hσ rfl (hcs choice) (hcs choice') (fun p hp => ?_) (hc choice) (hc choice') w
  refine ⟨(hplans p hp).stems, Respelling.fits_into (hplans p hp) (fun f => ?_) choice'⟩
  apply FieldPlan.mem_both_of_mem_outputKeys
  rw [hsource f]
  exact List.mem_singleton_self _

/-- The case of output keys only spells them. On all bytes the decoders of the three cases end alike, and what one
returns is what the other returns with its keys respelled, also in the messages that fields hold. Where every
message can be asked for they do return, and the message with both spellings holds the same under each of them. -/
theorem decode_respells {settings : Settings} {plans : List MessagePlan} {cs : DecodeCase → Codecs}
    (hcs : ∀ choice, ofPlans { settings with decodeCase := choice } plans = .ok (cs choice)) {m : MessagePlan}
    (hplans : ∀ p ∈ m :: plans, p.Separable .both) {c : DecodeCase → Codec}
    (hc : ∀ choice, codecOf { settings with decodeCase := choice } m = .ok (c choice)) (w : List UInt8) :
    (cs .camel).decodeValue (c .camel) (.bytes w) =
      ((cs .snake).decodeValue (c .snake) (.bytes w)).map ((Respelling.into FieldPlan.name .camel).value plans m) ∧
    (cs .both).decodeValue (c .both) (.bytes w) =
      ((cs .snake).decodeValue (c .snake) (.bytes w)).map ((Respelling.into FieldPlan.name .both).value plans m) ∧
    (cs .both).decodeValue (c .both) (.bytes w) =
      ((cs .camel).decodeValue (c .camel) (.bytes w)).map ((Respelling.into FieldPlan.jsonKey .both).value plans m) ∧
    ((∀ p ∈ m :: plans, p.Linked plans) → ∃ snake camel both : Entries,
      (cs .snake).decodeValue (c .snake) (.bytes w) = .ok (.mapping snake) ∧
      (cs .camel).decodeValue (c .camel) (.bytes w) = .ok (.mapping camel) ∧
      (cs .both).decodeValue (c .both) (.bytes w) = .ok (.mapping both) ∧ m.Agree plans snake camel both) := by
  have hsnake (f : FieldPlan) : f.outputKeys .snake = [f.name] := rfl
  have hcamel (f : FieldPlan) : f.outputKeys .camel = [f.jsonKey] := rfl
  have hname := decode_into hcs hplans hc hsnake
  have hjson := decode_into hcs hplans hc hcamel
  refine ⟨((hname .camel w).imp fun v v' h => h.eq_value).eq_map, ((hname .both w).imp fun v v' h => h.eq_value).eq_map,
    ((hjson .both w).imp fun v v' h => h.eq_value).eq_map, fun hlinked => ?_⟩
  have hdecode (choice : DecodeCase) := exists_decode_of_plans (hcs choice) (hc choice)
    (fun p hp => ⟨(hplans p hp).of_both choice, hlinked p hp⟩) w
  obtain ⟨snake, hsnake⟩ := hdecode .snake
  obtain ⟨camel, hcamel⟩ := hdecode .camel
  obtain ⟨_, hboth, _, both, heq, rfl, hmirrors⟩ := (hname .both w).exists_ok hsnake
  obtain rfl := Value.mapping.inj heq
  obtain ⟨_, hboth', _, both', heq', rfl, hmirrors'⟩ := (hjson .both w).exists_ok hcamel
  obtain rfl := Value.mapping.inj heq'
  obtain rfl := Value.mapping.inj (Except.ok.inj (hboth.symm.trans hboth'))
  exact ⟨snake, camel, both, hsnake, hcamel, hboth, (hplans m List.mem_cons_self).agree hmirrors hmirrors'⟩

end Codecs

end Cases

namespace Sample

/-- A message that holds messages of its own kind, with names of two words. -/
def branch : MessagePlan where
  name := "Branch"
  fullName := "forum.Branch"
  symbol := "Branch"
  fields := [optionalWord "post_id" 1 none,
    { name := "sub_posts", number := 2, kind := .message, child := some "forum.Branch", repeated := true }]

def branchCodec (choice : DecodeCase) : Codec :=
  ⟨"forum.Branch", "Branch",
    List.zipWith (FieldPlan.ready choice) branch.fields [.element (.scalar .fixed32), .message "forum.Branch"]⟩

private theorem branch_separable : branch.Separable .both where
  numbers := by decide
  stems := by decide
  outputs := by decide
  unknown := by decide

private theorem branch_linked : branch.Linked [branch] := by
  intro f hf hkind
  simp only [branch, List.mem_cons, List.not_mem_nil, or_false] at hf
  rcases hf with rfl | rfl
  · cases hkind
  · exact ⟨branch, List.mem_cons_self, rfl⟩

/-- A message within a message, and a record that is kept. -/
theorem decode_respells_branch : ∃ (cs : DecodeCase → Codecs) (c : DecodeCase → Codec) (w : List UInt8),
    (∀ choice, Codecs.ofPlans { sparseSettings with decodeCase := choice } [branch] = .ok (cs choice)) ∧
    (∀ choice, Codecs.codecOf { sparseSettings with decodeCase := choice } branch = .ok (c choice)) ∧
    w = [18, 5, 13, 5, 0, 0, 0] ++ [29, 1, 2, 3, 4] ∧
    ∃ snake camel both : Entries, (cs .snake).decodeValue (c .snake) (.bytes w) = .ok (.mapping snake) ∧
      (cs .camel).decodeValue (c .camel) (.bytes w) = .ok (.mapping camel) ∧
      (cs .both).decodeValue (c .both) (.bytes w) = .ok (.mapping both) ∧ branch.Agree [branch] snake camel both := by
  have hcs (choice : DecodeCase) : Codecs.ofPlans { sparseSettings with decodeCase := choice } [branch] =
      .ok ⟨[branchCodec choice], false⟩ := rfl
  have hc (choice : DecodeCase) : Codecs.codecOf { sparseSettings with decodeCase := choice } branch =
      .ok (branchCodec choice) := rfl
  have hplans : ∀ p ∈ [branch, branch], p.Separable .both ∧ p.Linked [branch] := by
    intro p hp
    simp only [List.mem_cons, List.not_mem_nil, or_false, or_self] at hp
    rw [hp]
    exact ⟨branch_separable, branch_linked⟩
  obtain ⟨-, -, -, hagree⟩ := Codecs.decode_respells hcs (fun p hp => (hplans p hp).1) hc
    ([18, 5, 13, 5, 0, 0, 0] ++ [29, 1, 2, 3, 4])
  exact ⟨_, _, _, hcs, hc, rfl, hagree fun p hp => (hplans p hp).2⟩

end Sample

end MessageCodec
