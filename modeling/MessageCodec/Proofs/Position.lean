import MessageCodec.Proofs.Slice

/-!
# Positions

A reader sees the bytes that are left, and its caller sees positions: the one after the item, or the one the
item should have begun at where nothing could be read. Passing over a payload moves exactly to the end of the
payload that stands at the position, if one does, and a reader of payloads of that form refuses exactly where
none does. For a group this is the recogniser of balanced groups: complete fields, nested groups among them, up
to the end tag with the number of the group.
-/

namespace MessageCodec.Wire

/-! ### Moving past a piece of the bytes -/

theorem length_sub_of_drop {data p rest : List UInt8} {cursor : Nat} (h : data.drop cursor = p ++ rest)
    (hp : p ≠ []) : data.length - rest.length = cursor + p.length := by
  have hlength := congrArg List.length h
  have hpos := List.length_pos_iff.2 hp
  rw [List.length_drop, List.length_append] at hlength
  omega

theorem extract_of_drop {data p rest : List UInt8} {cursor : Nat} (h : data.drop cursor = p ++ rest) :
    data.extract cursor (cursor + p.length) = p := by
  rw [List.extract_eq_take_drop, Nat.add_sub_cancel_left, h, List.take_left]

theorem drop_eq_extract_append (data : List UInt8) (cursor stop : Nat) :
    data.drop cursor = data.extract cursor stop ++ (data.drop cursor).drop (stop - cursor) := by
  rw [List.extract_eq_take_drop, List.take_append_drop]

theorem add_length_extract {data : List UInt8} {cursor stop : Nat} (hstart : cursor < stop)
    (hstop : stop ≤ data.length) : cursor + (data.extract cursor stop).length = stop := by
  rw [List.extract_eq_take_drop, List.length_take, List.length_drop]
  omega

theorem Reader.at_append {α : Type} {r : Reader α} {data p rest : List UInt8} {cursor : Nat} {a : α}
    (hdata : data.drop cursor = p ++ rest) (hp : p ≠ []) (hread : r (p ++ rest) = some (a, rest)) :
    r.at data cursor = (some a, cursor + p.length) := by
  rw [Reader.at, hdata, hread]
  exact congrArg (Prod.mk (some a)) (length_sub_of_drop hdata hp)

/-! ### Passing over a payload -/

theorem skipAt_append {data p rest : List UInt8} {cursor number : Nat} {form : WireType}
    (hdata : data.drop cursor = p ++ rest) (hp : IsPayload form number p) :
    skipAt data cursor form.code number = cursor + p.length := by
  rw [skipAt, hdata, skip_append hp]
  exact length_sub_of_drop hdata hp.ne_nil

/-- Either the position moves past a payload that stands there, or no payload stands there and it stays. -/
theorem skipAt_cases (data : List UInt8) (cursor number : Nat) (form : WireType) :
    (∃ p rest, data.drop cursor = p ++ rest ∧ IsPayload form number p ∧
        skipAt data cursor form.code number = cursor + p.length) ∨
      ((∀ p, IsPayload form number p → ¬ p <+: data.drop cursor) ∧
        skipAt data cursor form.code number = cursor) := by
  cases hskip : skip form.code number (data.drop cursor) with
  | some rest =>
    obtain ⟨form', p, hcode, hdata, hp⟩ := skip_some hskip
    obtain rfl := WireType.code_injective hcode
    exact .inl ⟨p, rest, hdata, hp, skipAt_append hdata hp⟩
  | none =>
    refine .inr ⟨fun p hp hprefix => ?_, by rw [skipAt, hskip]⟩
    obtain ⟨rest, hrest⟩ := hprefix
    rw [← hrest, skip_append hp] at hskip
    simp at hskip

theorem skipAt_eq_iff {data : List UInt8} {cursor stop number : Nat} {form : WireType} (hstop : cursor < stop) :
    skipAt data cursor form.code number = stop ↔
      stop ≤ data.length ∧ IsPayload form number (data.extract cursor stop) := by
  constructor
  · intro h
    obtain ⟨p, rest, hdata, hp, hmoved⟩ | ⟨-, hstayed⟩ := skipAt_cases data cursor number form
    · obtain rfl : cursor + p.length = stop := hmoved.symm.trans h
      rw [extract_of_drop hdata]
      have hend := length_sub_of_drop hdata hp.ne_nil
      exact ⟨by omega, hp⟩
    · omega
  · intro h
    rw [skipAt_append (drop_eq_extract_append data cursor stop) h.2, add_length_extract hstop h.1]

theorem skipAt_eq_self_iff {data : List UInt8} {cursor number : Nat} {form : WireType} :
    skipAt data cursor form.code number = cursor ↔
      ∀ stop ≤ data.length, ¬ IsPayload form number (data.extract cursor stop) := by
  constructor
  · intro hstayed stop _ hp
    rw [skipAt_append (drop_eq_extract_append data cursor stop) hp] at hstayed
    have hpos := List.length_pos_iff.2 hp.ne_nil
    omega
  · intro hnone
    obtain ⟨p, rest, hdata, hp, -⟩ | ⟨-, hstayed⟩ := skipAt_cases data cursor number form
    · have hend := length_sub_of_drop hdata hp.ne_nil
      apply absurd hp
      rw [← extract_of_drop hdata]
      exact hnone _ (by omega)
    · exact hstayed

/-! ### Readers of one form -/

/-- The reader takes exactly the payloads of a form. -/
structure Reader.Frames {α : Type} (r : Reader α) (form : WireType) : Prop where
  append : ∀ {number : Nat} {p : List UInt8}, IsPayload form number p →
    ∃ a, ∀ rest, r (p ++ rest) = some (a, rest)
  some : ∀ {bs rest : List UInt8} {a : α}, r bs = some (a, rest) → ∀ number,
    ∃ p, bs = p ++ rest ∧ IsPayload form number p

theorem Reader.map_some {α β : Type} {f : α → β} {r : Reader α} {bs rest : List UInt8} {b : β}
    (h : r.map f bs = some (b, rest)) : ∃ a, r bs = some (a, rest) ∧ f a = b := by
  unfold Reader.map at h
  split at h
  · rename_i a after hread
    obtain ⟨hb, rfl⟩ := Prod.mk.inj (Option.some.inj h)
    exact ⟨a, hread, hb⟩
  · simp at h

theorem Reader.map_of_some {α β : Type} {f : α → β} {r : Reader α} {bs rest : List UInt8} {a : α}
    (h : r bs = some (a, rest)) : r.map f bs = some (f a, rest) := by
  rw [Reader.map, h]

theorem Reader.Frames.map {α β : Type} {r : Reader α} {form : WireType} (h : r.Frames form) (f : α → β) :
    (r.map f).Frames form where
  append hp := by
    obtain ⟨a, ha⟩ := h.append hp
    exact ⟨f a, fun rest => Reader.map_of_some (ha rest)⟩
  some hread number := by
    obtain ⟨a, ha, _⟩ := Reader.map_some hread
    exact h.some ha number

/-- A payload by itself is read to its end. -/
theorem Reader.Frames.whole {α : Type} {r : Reader α} {form : WireType} (h : r.Frames form) {number : Nat}
    {p : List UInt8} (hp : IsPayload form number p) : ∃ a, r p = Option.some (a, []) := by
  obtain ⟨a, ha⟩ := h.append hp
  have halone := ha []
  rw [List.append_nil] at halone
  exact ⟨a, halone⟩

theorem readVarint64_frames : readVarint64.Frames .varint where
  append hp := by
    cases hp with
    | varint h => exact ⟨_, readVarint64_append h⟩
  some hread number := by
    obtain ⟨p, hbs, hp, _⟩ := readVarint64_some hread
    exact ⟨p, hbs, .varint hp⟩

theorem readVarint32_frames : readVarint32.Frames .varint where
  append hp := by
    cases hp with
    | varint h => exact ⟨_, readVarint32_append h⟩
  some hread number := by
    obtain ⟨p, hbs, hp, _⟩ := readVarint32_some hread
    exact ⟨p, hbs, .varint hp⟩

theorem take_frames_fixed64 : (take 8).Frames .fixed64 where
  append hp := by
    cases hp with
    | fixed64 h => exact ⟨_, take_append h⟩
  some hread number := by
    obtain ⟨hbs, hp⟩ := take_some hread
    exact ⟨_, hbs, .fixed64 hp⟩

theorem take_frames_fixed32 : (take 4).Frames .fixed32 where
  append hp := by
    cases hp with
    | fixed32 h => exact ⟨_, take_append h⟩
  some hread number := by
    obtain ⟨hbs, hp⟩ := take_some hread
    exact ⟨_, hbs, .fixed32 hp⟩

theorem readDelimited_frames : readDelimited.Frames .delimited where
  append hp := by
    cases hp with
    | @delimited _ size block hsize hblock =>
      refine ⟨block, fun rest => ?_⟩
      rw [List.append_assoc, readDelimited_append hsize hblock]
  some hread number := by
    obtain ⟨size, rfl, hsize, hblock⟩ := readDelimited_some hread
    exact ⟨size ++ _, by rw [List.append_assoc], .delimited hsize hblock⟩

/-- Where no payload of its form stands, a reader refuses and does not move. -/
theorem Reader.Frames.at_none {α : Type} {r : Reader α} {form : WireType} (h : r.Frames form) {number : Nat}
    {data : List UInt8} {cursor : Nat} (hnone : ∀ p, IsPayload form number p → ¬ p <+: data.drop cursor) :
    r.at data cursor = (none, cursor) := by
  cases hread : r (data.drop cursor) with
  | none => rw [Reader.at, hread]
  | some found =>
    obtain ⟨p, hdata, hp⟩ := h.some hread number
    exact absurd ⟨found.2, hdata.symm⟩ (hnone p hp)

/-! ### Groups -/

/-- A field inside a group as it stands in the bytes: a tag, whose low 32 bits give a form and a number, and a
payload of that form. Unlike a record of a message, it may have the number zero. -/
structure GroupField where
  tag : List UInt8
  form : WireType
  payload : List UInt8
  tag_varint : IsVarint maxVarintBytes tag
  tag_form : groupVal tag % 0x100000000 % 8 = form.code
  payload_form : IsPayload form (groupVal tag % 0x100000000 / 8) payload

/-- What follows the start tag of a group: fields, and an end tag that repeats the number of the group. -/
structure GroupBody (number : Nat) where
  fields : List GroupField
  close : List UInt8
  close_varint : IsVarint maxVarintBytes close
  close_form : groupVal close % 0x100000000 % 8 = WireType.endGroup.code
  close_number : groupVal close % 0x100000000 / 8 = number

def GroupField.bytes (f : GroupField) : List UInt8 := f.tag ++ f.payload

def GroupBody.bytes {number : Nat} (body : GroupBody number) : List UInt8 :=
  body.fields.flatMap GroupField.bytes ++ body.close

theorem GroupField.append_inj {f g : GroupField} {rest rest' : List UInt8}
    (h : f.bytes ++ rest = g.bytes ++ rest') : f = g ∧ rest = rest' := by
  obtain ⟨tag, form, payload, htag, hform, hpayload⟩ := f
  obtain ⟨tag', form', payload', htag', hform', hpayload'⟩ := g
  simp only [bytes, List.append_assoc] at h
  obtain ⟨rfl, htail⟩ := htag.append_inj htag' h
  obtain rfl := WireType.code_injective (hform.symm.trans hform')
  obtain ⟨rfl, rfl⟩ := hpayload.append_inj hpayload' htail
  exact ⟨rfl, rfl⟩

/-- No field begins with an end tag. -/
theorem GroupField.bytes_append_ne (f : GroupField) {close rest rest' : List UInt8}
    (hclose : IsVarint maxVarintBytes close)
    (hform : groupVal close % 0x100000000 % 8 = WireType.endGroup.code) :
    f.bytes ++ rest ≠ close ++ rest' := by
  intro h
  rw [bytes, List.append_assoc] at h
  obtain ⟨rfl, -⟩ := f.tag_varint.append_inj hclose h
  exact f.payload_form.form_ne_endGroup (WireType.code_injective (f.tag_form.symm.trans hform))

/-- No group body is the beginning of another one, and its bytes fall into fields in one way. -/
theorem GroupBody.append_inj {number : Nat} {body body' : GroupBody number} {rest rest' : List UInt8}
    (h : body.bytes ++ rest = body'.bytes ++ rest') : body = body' ∧ rest = rest' := by
  obtain ⟨fields, close, hclose, hform, hnumber⟩ := body
  obtain ⟨fields', close', hclose', hform', hnumber'⟩ := body'
  simp only [bytes, List.append_assoc] at h
  -- fields come off both sides in step, and an end tag on one side only would be the beginning of a field
  induction fields generalizing fields' with
  | nil =>
    cases fields' with
    | nil =>
      obtain ⟨rfl, rfl⟩ := hclose.append_inj hclose' h
      exact ⟨rfl, rfl⟩
    | cons g gs =>
      rw [List.flatMap_nil, List.nil_append, List.flatMap_cons, List.append_assoc] at h
      exact absurd h.symm (g.bytes_append_ne hclose hform)
  | cons f fs ih =>
    cases fields' with
    | nil =>
      rw [List.flatMap_nil, List.nil_append, List.flatMap_cons, List.append_assoc] at h
      exact absurd h (f.bytes_append_ne hclose' hform')
    | cons g gs =>
      rw [List.flatMap_cons, List.flatMap_cons, List.append_assoc, List.append_assoc] at h
      obtain ⟨rfl, htail⟩ := GroupField.append_inj h
      obtain ⟨heq, rfl⟩ := ih gs htail
      obtain ⟨rfl, rfl⟩ := GroupBody.mk.inj heq
      exact ⟨rfl, rfl⟩

theorem GroupBody.isPayload {number : Nat} (body : GroupBody number) :
    IsPayload .startGroup number body.bytes := by
  obtain ⟨fields, close, hclose, hform, hnumber⟩ := body
  rw [bytes]
  induction fields with
  | nil => exact .groupEnd hclose hform hnumber
  | cons f fs ih =>
    rw [List.flatMap_cons, GroupField.bytes, List.append_assoc, List.append_assoc]
    exact .groupField f.tag_varint f.tag_form f.payload_form ih

private theorem IsPayload.exists_body {form : WireType} {number : Nat} {p : List UInt8} (h : IsPayload form number p)
    (hform : form = .startGroup) : ∃ body : GroupBody number, body.bytes = p := by
  induction h with
  | varint | fixed64 | fixed32 | delimited => simp at hform
  | groupEnd htag hcode hnumber => exact ⟨⟨[], _, htag, hcode, hnumber⟩, rfl⟩
  | @groupField number form tag p rest htag hcode hp _ _ ih =>
    obtain ⟨⟨fields, close, hclose, hend, hnumber⟩, rfl⟩ := ih rfl
    refine ⟨⟨⟨tag, form, p, htag, hcode, hp⟩ :: fields, close, hclose, hend, hnumber⟩, ?_⟩
    simp only [GroupBody.bytes, List.flatMap_cons, GroupField.bytes, List.append_assoc]

/-- The payload of a nested group is a group body once more. -/
theorem isPayload_startGroup_iff {number : Nat} {p : List UInt8} :
    IsPayload .startGroup number p ↔ ∃ body : GroupBody number, body.bytes = p := by
  constructor
  · intro h
    exact h.exists_body rfl
  · intro h
    obtain ⟨body, rfl⟩ := h
    exact body.isPayload

/-- Passing over a group moves to a later position exactly if the bytes up to there are the body of a group with
its number, stays where it is exactly if no bytes from there on are, and a body can be cut off the bytes in at
most one way. -/
theorem skipAt_startGroup (data : List UInt8) (cursor number : Nat) :
    (∀ stop, cursor < stop →
        (skipAt data cursor WireType.startGroup.code number = stop ↔
          stop ≤ data.length ∧ ∃ body : GroupBody number, body.bytes = data.extract cursor stop)) ∧
      (skipAt data cursor WireType.startGroup.code number = cursor ↔
        ∀ stop ≤ data.length, ∀ body : GroupBody number, body.bytes ≠ data.extract cursor stop) ∧
      ∀ (body body' : GroupBody number) (rest rest' : List UInt8),
        body.bytes ++ rest = body'.bytes ++ rest' → body = body' ∧ rest = rest' := by
  refine ⟨fun stop hstop => ?_, ?_, fun body body' rest rest' h => GroupBody.append_inj h⟩
  · rw [skipAt_eq_iff hstop, isPayload_startGroup_iff]
  · rw [skipAt_eq_self_iff]
    simp only [isPayload_startGroup_iff, not_exists, ne_eq]

end MessageCodec.Wire
