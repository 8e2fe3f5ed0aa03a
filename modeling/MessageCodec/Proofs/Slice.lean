import MessageCodec.Proofs.Varint

/-!
# Cutting bytes into records

The grammar of records, apart from any reader: a tag, and a payload of the form that the tag announces.
No payload is the beginning of another one of the same form and number, so a byte string can be cut
into records in one way only, up to a place where no record begins. The skipper passes over exactly
the payloads of the grammar.
-/

namespace MessageCodec.Wire

/-- A payload of a form, in a record with a number. Only a group depends on the number: it goes on with
fields of its own up to the end tag that repeats the number. -/
inductive IsPayload : WireType → (number : Nat) → List UInt8 → Prop
  | varint {number : Nat} {p : List UInt8} (h : IsVarint maxVarintBytes p) : IsPayload .varint number p
  | fixed64 {number : Nat} {p : List UInt8} (h : p.length = 8) : IsPayload .fixed64 number p
  | fixed32 {number : Nat} {p : List UInt8} (h : p.length = 4) : IsPayload .fixed32 number p
  | delimited {number : Nat} {size block : List UInt8} (hsize : IsVarint maxVarintBytes size)
      (hblock : block.length = groupVal size % 0x100000000) : IsPayload .delimited number (size ++ block)
  | groupEnd {number : Nat} {tag : List UInt8} (htag : IsVarint maxVarintBytes tag)
      (hcode : groupVal tag % 0x100000000 % 8 = WireType.endGroup.code)
      (hnumber : groupVal tag % 0x100000000 / 8 = number) : IsPayload .startGroup number tag
  | groupField {number : Nat} {form : WireType} {tag p rest : List UInt8} (htag : IsVarint maxVarintBytes tag)
      (hcode : groupVal tag % 0x100000000 % 8 = form.code)
      (hp : IsPayload form (groupVal tag % 0x100000000 / 8) p)
      (hrest : IsPayload .startGroup number rest) : IsPayload .startGroup number (tag ++ (p ++ rest))

theorem WireType.ofCode?_code (form : WireType) : WireType.ofCode? form.code = some form := by
  cases form <;> rfl

theorem WireType.code_of_ofCode? {code : Nat} {form : WireType} (h : WireType.ofCode? code = some form) :
    form.code = code := by
  unfold WireType.ofCode? at h
  split at h <;> first | (obtain rfl := Option.some.inj h; rfl) | exact absurd h (by simp)

theorem WireType.code_injective {form form' : WireType} (h : form.code = form'.code) : form = form' := by
  have hsome := form.ofCode?_code
  rw [h, form'.ofCode?_code] at hsome
  exact (Option.some.inj hsome).symm

/-- A field inside a group is never an end tag, as an end tag has no payload. -/
theorem IsPayload.form_ne_endGroup {form : WireType} {number : Nat} {p : List UInt8}
    (h : IsPayload form number p) : form ≠ .endGroup := by
  cases h <;> simp

theorem IsPayload.ne_nil {form : WireType} {number : Nat} {p : List UInt8} (h : IsPayload form number p) :
    p ≠ [] := by
  cases h with
  | varint h => exact h.ne_nil
  | fixed64 h => exact fun hnil => by simp [hnil] at h
  | fixed32 h => exact fun hnil => by simp [hnil] at h
  | delimited hsize _ => exact fun hnil => hsize.ne_nil (List.append_eq_nil_iff.1 hnil).1
  | groupEnd htag _ _ => exact htag.ne_nil
  | groupField htag _ _ _ => exact fun hnil => htag.ne_nil (List.append_eq_nil_iff.1 hnil).1

/-- No payload is the beginning of another one of its form and number. -/
theorem IsPayload.append_inj {form : WireType} {number : Nat} {p q rest rest' : List UInt8}
    (hp : IsPayload form number p) (hq : IsPayload form number q) (h : p ++ rest = q ++ rest') :
    p = q ∧ rest = rest' := by
  induction hp generalizing q rest rest' with
  | varint hp =>
    cases hq with
    | varint hq => exact hp.append_inj hq h
  | fixed64 hp =>
    cases hq with
    | fixed64 hq => exact List.append_inj h (by rw [hp, hq])
  | fixed32 hp =>
    cases hq with
    | fixed32 hq => exact List.append_inj h (by rw [hp, hq])
  | delimited hsize hblock =>
    cases hq with
    | delimited hsize' hblock' =>
      rw [List.append_assoc, List.append_assoc] at h
      obtain ⟨rfl, htail⟩ := hsize.append_inj hsize' h
      obtain ⟨rfl, hrest⟩ := List.append_inj htail (by rw [hblock, hblock'])
      exact ⟨rfl, hrest⟩
  | groupEnd htag hcode hnumber =>
    cases hq with
    | groupEnd htag' _ _ => exact htag.append_inj htag' h
    | groupField htag' hcode' hp' _ =>
      rw [List.append_assoc] at h
      obtain ⟨rfl, _⟩ := htag.append_inj htag' h
      exact absurd (WireType.code_injective (hcode'.symm.trans hcode)) hp'.form_ne_endGroup
  | groupField htag hcode hp _ ihp ihrest =>
    cases hq with
    | groupEnd htag' hcode' _ =>
      rw [List.append_assoc] at h
      obtain ⟨rfl, _⟩ := htag.append_inj htag' h
      exact absurd (WireType.code_injective (hcode.symm.trans hcode')) hp.form_ne_endGroup
    | groupField htag' hcode' hp' hrest' =>
      rw [List.append_assoc, List.append_assoc, List.append_assoc, List.append_assoc] at h
      obtain ⟨rfl, hfield⟩ := htag.append_inj htag' h
      obtain rfl := WireType.code_injective (hcode.symm.trans hcode')
      obtain ⟨rfl, hgroup⟩ := ihp hp' hfield
      obtain ⟨rfl, hrest⟩ := ihrest hrest' hgroup
      exact ⟨rfl, hrest⟩

/-! ### Skipping -/

theorem take_append {count : Nat} {p : List UInt8} (h : p.length = count) (rest : List UInt8) :
    take count (p ++ rest) = some (p, rest) := by
  rw [take, if_pos (by rw [List.length_append]; omega), ← h, List.take_left, List.drop_left]

theorem take_some {count : Nat} {bs p rest : List UInt8} (h : take count bs = some (p, rest)) :
    bs = p ++ rest ∧ p.length = count := by
  unfold take at h
  split at h
  · rename_i hle
    obtain ⟨rfl, rfl⟩ := Prod.mk.inj (Option.some.inj h)
    exact ⟨(List.take_append_drop count bs).symm, by rw [List.length_take]; omega⟩
  · simp at h

theorem readDelimited_append {size block : List UInt8} (hsize : IsVarint maxVarintBytes size)
    (hblock : block.length = groupVal size % 0x100000000) (rest : List UInt8) :
    readDelimited (size ++ (block ++ rest)) = some (block, rest) := by
  rw [readDelimited, readVarint32_append hsize]
  exact take_append hblock rest

theorem readDelimited_some {bs block rest : List UInt8} (h : readDelimited bs = some (block, rest)) :
    ∃ size, bs = size ++ (block ++ rest) ∧ IsVarint maxVarintBytes size ∧
      block.length = groupVal size % 0x100000000 := by
  unfold readDelimited at h
  split at h
  · rename_i n after hread
    obtain ⟨size, rfl, hsize, rfl⟩ := readVarint32_some hread
    obtain ⟨rfl, hlen⟩ := take_some h
    exact ⟨size, rfl, hsize, hlen⟩
  · simp at h

/-- A block that is written with its length in front is read back. -/
theorem readDelimited_delimited {block : List UInt8} (h : block.length < 0x100000000) (rest : List UInt8) :
    readDelimited (delimited block ++ rest) = some (block, rest) := by
  rw [readDelimited, delimited, List.append_assoc, readVarint32_varintOfNat h]
  exact take_append rfl rest

theorem isPayload_delimited {block : List UInt8} (h : block.length < 0x100000000) (number : Nat) :
    IsPayload .delimited number (delimited block) := by
  refine .delimited (isVarint_of_lt (by omega)) ?_
  rw [groupVal_varintOfNat, Nat.mod_eq_of_lt h]

theorem skipPlain_append {form : WireType} {number : Nat} {p : List UInt8} (h : IsPayload form number p)
    (hplain : form ≠ .startGroup) (rest : List UInt8) : skipPlain form (p ++ rest) = some rest := by
  cases h with
  | varint h => exact skipVarint_append h rest
  | fixed64 h => rw [skipPlain, take_append h]; rfl
  | fixed32 h => rw [skipPlain, take_append h]; rfl
  | delimited hsize hblock =>
    rw [skipPlain, List.append_assoc, readDelimited_append hsize hblock]
    rfl
  | groupEnd => exact absurd rfl hplain
  | groupField => exact absurd rfl hplain

theorem skipPlain_some {form : WireType} {bs rest : List UInt8} (h : skipPlain form bs = some rest)
    (number : Nat) : ∃ p, bs = p ++ rest ∧ IsPayload form number p := by
  cases form with
  | varint =>
    obtain ⟨p, hbs, hp⟩ := skipVarint_some h
    exact ⟨p, hbs, .varint hp⟩
  | fixed64 =>
    obtain ⟨⟨p, after⟩, htake, rfl⟩ := Option.map_eq_some_iff.1 h
    obtain ⟨hbs, hp⟩ := take_some htake
    exact ⟨p, hbs, .fixed64 hp⟩
  | fixed32 =>
    obtain ⟨⟨p, after⟩, htake, rfl⟩ := Option.map_eq_some_iff.1 h
    obtain ⟨hbs, hp⟩ := take_some htake
    exact ⟨p, hbs, .fixed32 hp⟩
  | delimited =>
    obtain ⟨⟨block, after⟩, hread, rfl⟩ := Option.map_eq_some_iff.1 h
    obtain ⟨size, rfl, hsize, hblock⟩ := readDelimited_some hread
    exact ⟨size ++ block, by rw [List.append_assoc], .delimited hsize hblock⟩
  | startGroup => simp [skipPlain] at h
  | endGroup => simp [skipPlain] at h

theorem skip_plain {code number : Nat} {form : WireType} (hcode : form.code = code)
    (hplain : form ≠ .startGroup) (bs : List UInt8) : skip code number bs = skipPlain form bs := by
  subst hcode
  rw [skip, form.ofCode?_code]
  cases form <;> first | rfl | exact absurd rfl hplain

theorem skip_group {number : Nat} (bs : List UInt8) :
    skip WireType.startGroup.code number bs = skipGroup number bs := by
  rw [skip, WireType.ofCode?_code]

private theorem skipGroup_end {number : Nat} {tag : List UInt8} (htag : IsVarint maxVarintBytes tag)
    (hcode : groupVal tag % 0x100000000 % 8 = WireType.endGroup.code)
    (hnumber : groupVal tag % 0x100000000 / 8 = number) (rest : List UInt8) :
    skipGroup number (tag ++ rest) = some rest := by
  have hread := readVarint32_append htag rest
  rw [skipGroup]
  split
  · rename_i hnone
    rw [hread] at hnone
    simp at hnone
  · rename_i value after hsome
    rw [hread] at hsome
    obtain ⟨rfl, rfl⟩ := Prod.mk.inj (Option.some.inj hsome)
    simp only [if_pos hcode, if_pos hnumber]

private theorem skipGroup_field {number : Nat} {tag after rest : List UInt8} (htag : IsVarint maxVarintBytes tag)
    (hcode : groupVal tag % 0x100000000 % 8 ≠ WireType.endGroup.code)
    (hskip : skip (groupVal tag % 0x100000000 % 8) (groupVal tag % 0x100000000 / 8) rest = some after) :
    skipGroup number (tag ++ rest) = skipGroup number after := by
  have hread := readVarint32_append htag rest
  rw [skipGroup]
  split
  · rename_i hnone
    rw [hread] at hnone
    simp at hnone
  · rename_i value tail hsome
    rw [hread] at hsome
    obtain ⟨rfl, rfl⟩ := Prod.mk.inj (Option.some.inj hsome)
    simp only [if_neg hcode, hskip, if_pos (skip_lt hskip)]

theorem skip_append {form : WireType} {number : Nat} {p : List UInt8} (h : IsPayload form number p)
    (rest : List UInt8) : skip form.code number (p ++ rest) = some rest := by
  induction h generalizing rest with
  | @varint number p h =>
    rw [skip_plain rfl (by simp), skipPlain_append (IsPayload.varint h : IsPayload .varint number p) (by simp)]
  | @fixed64 number p h =>
    rw [skip_plain rfl (by simp), skipPlain_append (IsPayload.fixed64 h : IsPayload .fixed64 number p) (by simp)]
  | @fixed32 number p h =>
    rw [skip_plain rfl (by simp), skipPlain_append (IsPayload.fixed32 h : IsPayload .fixed32 number p) (by simp)]
  | @delimited number size block hsize hblock =>
    rw [skip_plain rfl (by simp), skipPlain_append
      (IsPayload.delimited hsize hblock : IsPayload .delimited number (size ++ block)) (by simp)]
  | groupEnd htag hcode hnumber => rw [skip_group, skipGroup_end htag hcode hnumber]
  | @groupField number form tag p inner htag hcode hp _ ihp ihrest =>
    have hne : groupVal tag % 0x100000000 % 8 ≠ WireType.endGroup.code := fun h =>
      hp.form_ne_endGroup (WireType.code_injective (hcode.symm.trans h))
    have hskip : skip (groupVal tag % 0x100000000 % 8) (groupVal tag % 0x100000000 / 8) (p ++ inner ++ rest)
        = some (inner ++ rest) := by
      rw [hcode, List.append_assoc]
      exact ihp (inner ++ rest)
    rw [skip_group, List.append_assoc, skipGroup_field htag hne hskip, ← skip_group, ihrest]

private theorem skipGroup_some {number : Nat} {bs rest : List UInt8} (h : skipGroup number bs = some rest) :
    ∃ p, bs = p ++ rest ∧ IsPayload .startGroup number p := by
  -- a field of the group may itself be a group, so the induction is on the bytes left
  induction hn : bs.length using Nat.strongRecOn generalizing bs number rest with
  | _ n ih =>
    rw [skipGroup] at h
    split at h
    · simp at h
    · rename_i tag after hread
      have hlt := readVarint32_lt hread
      obtain ⟨t, rfl, ht, rfl⟩ := readVarint32_some hread
      dsimp only at h
      split at h
      · rename_i hcode
        split at h
        · rename_i hnumber
          obtain rfl := Option.some.inj h
          exact ⟨t, rfl, .groupEnd ht hcode hnumber⟩
        · simp at h
      · split at h
        · simp at h
        · rename_i inner hskip
          split at h
          · rename_i hshort
            obtain ⟨q, rfl, hq⟩ := ih inner.length (by omega) h rfl
            obtain ⟨form, p, hcode, hafter, hp⟩ : ∃ form p, groupVal t % 0x100000000 % 8 = form.code ∧
                after = p ++ (q ++ rest) ∧ IsPayload form (groupVal t % 0x100000000 / 8) p := by
              rw [skip] at hskip
              split at hskip
              · simp at hskip
              · rename_i hgroup
                obtain ⟨p, hafter, hp⟩ := ih after.length (by omega) hskip rfl
                exact ⟨_, p, (WireType.code_of_ofCode? hgroup).symm, hafter, hp⟩
              · rename_i form _ hform
                obtain ⟨p, hafter, hp⟩ := skipPlain_some hskip _
                exact ⟨_, p, (WireType.code_of_ofCode? hform).symm, hafter, hp⟩
            refine ⟨t ++ (p ++ q), ?_, .groupField ht hcode hp hq⟩
            rw [hafter, List.append_assoc, List.append_assoc]
          · simp at h

theorem skip_some {code number : Nat} {bs rest : List UInt8} (h : skip code number bs = some rest) :
    ∃ form p, form.code = code ∧ bs = p ++ rest ∧ IsPayload form number p := by
  rw [skip] at h
  split at h
  · simp at h
  · rename_i hgroup
    obtain ⟨p, hbs, hp⟩ := skipGroup_some h
    exact ⟨_, p, WireType.code_of_ofCode? hgroup, hbs, hp⟩
  · rename_i form _ hform
    obtain ⟨p, hbs, hp⟩ := skipPlain_some h number
    exact ⟨_, p, WireType.code_of_ofCode? hform, hbs, hp⟩

/-! ### Slices -/

/-- A record as it stands in the bytes. -/
structure Slice where
  number : Nat
  form : WireType
  tag : List UInt8
  payload : List UInt8
  tag_varint : IsVarint maxVarintBytes tag
  /-- The low 32 bits of the tag hold number and form. -/
  tag_val : groupVal tag % 0x100000000 = 8 * number + form.code
  number_pos : 1 ≤ number
  payload_form : IsPayload form number payload

namespace Slice

def bytes (r : Slice) : List UInt8 := r.tag ++ r.payload

theorem bytes_ne_nil (r : Slice) : r.bytes ≠ [] :=
  fun h => r.tag_varint.ne_nil (List.append_eq_nil_iff.1 h).1

theorem tag_val_div (r : Slice) : groupVal r.tag % 0x100000000 / 8 = r.number := by
  have hcode : r.form.code < 8 := by cases r.form <;> decide
  have := r.tag_val
  omega

theorem tag_val_mod (r : Slice) : groupVal r.tag % 0x100000000 % 8 = r.form.code := by
  have hcode : r.form.code < 8 := by cases r.form <;> decide
  have := r.tag_val
  omega

/-- No record is the beginning of another one. -/
theorem append_inj {r s : Slice} {rest rest' : List UInt8} (h : r.bytes ++ rest = s.bytes ++ rest') :
    r = s ∧ rest = rest' := by
  obtain ⟨number, form, tag, payload, htag, hval, hpos, hpayload⟩ := r
  obtain ⟨number', form', tag', payload', htag', hval', hpos', hpayload'⟩ := s
  simp only [bytes, List.append_assoc] at h
  obtain ⟨rfl, htail⟩ := htag.append_inj htag' h
  have hcode : form.code < 8 := by cases form <;> decide
  have hcode' : form'.code < 8 := by cases form' <;> decide
  obtain rfl := WireType.code_injective (show form.code = form'.code by omega)
  obtain rfl : number = number' := by omega
  obtain ⟨rfl, rfl⟩ := hpayload.append_inj hpayload' htail
  exact ⟨rfl, rfl⟩

end Slice

/-- The records tile the beginning of the bytes, and no record begins where they end. -/
def Tiles (w : List UInt8) (rs : List Slice) : Prop :=
  ∃ rest, w = rs.flatMap Slice.bytes ++ rest ∧ ∀ r : Slice, ¬ r.bytes <+: rest

theorem Tiles.cons {r : Slice} {rs : List Slice} {w : List UInt8} (h : Tiles w rs) :
    Tiles (r.bytes ++ w) (r :: rs) := by
  obtain ⟨rest, rfl, hrest⟩ := h
  exact ⟨rest, by rw [List.flatMap_cons, List.append_assoc], hrest⟩

theorem Tiles.append {w : List UInt8} {rs' : List Slice} (h : Tiles w rs') (rs : List Slice) :
    Tiles (rs.flatMap Slice.bytes ++ w) (rs ++ rs') := by
  obtain ⟨rest, rfl, hrest⟩ := h
  exact ⟨rest, by rw [List.flatMap_append, List.append_assoc], hrest⟩

theorem tiles_nil_iff {w : List UInt8} : Tiles w [] ↔ ∀ r : Slice, ¬ r.bytes <+: w := by
  constructor
  · rintro ⟨rest, rfl, hrest⟩
    exact hrest
  · exact fun h => ⟨w, rfl, h⟩

theorem length_payload_le {w : List UInt8} {rs : List Slice} (h : Tiles w rs) {r : Slice} (hr : r ∈ rs) :
    r.payload.length ≤ w.length := by
  obtain ⟨rest, rfl, _⟩ := h
  obtain ⟨before, after, rfl⟩ := List.append_of_mem hr
  rw [List.flatMap_append, List.flatMap_cons, Slice.bytes]
  simp only [List.length_append]
  omega

private theorem tiles_of_empty : Tiles [] [] :=
  tiles_nil_iff.2 fun r h => r.bytes_ne_nil (List.prefix_nil.1 h)

theorem tiles_flatMap (rs : List Slice) : Tiles (rs.flatMap Slice.bytes) rs := by
  have h := tiles_of_empty.append rs
  rwa [List.append_nil, List.append_nil] at h

/-- Bytes that are cut off are cut into the records that are whole; the next one ends beyond the cut. -/
theorem Tiles.take {w : List UInt8} {rs : List Slice} (h : Tiles w rs) (k : Nat) :
    ∃ done todo, rs = done ++ todo ∧ Tiles (w.take k) done ∧
      ∀ r ∈ todo.head?, k < (done.flatMap Slice.bytes).length + r.bytes.length := by
  obtain ⟨rest, rfl, hrest⟩ := h
  induction rs generalizing k with
  | nil =>
    refine ⟨[], [], rfl, tiles_nil_iff.2 fun r hr => hrest r ?_, by simp⟩
    exact hr.trans (List.take_prefix k _)
  | cons r rs ih =>
    rw [List.flatMap_cons, List.append_assoc]
    by_cases hlen : k < r.bytes.length
    · refine ⟨[], r :: rs, rfl, tiles_nil_iff.2 fun s hs => ?_, by simpa using hlen⟩
      -- a record that is whole within the cut would be the one that is cut
      obtain ⟨tail, htail⟩ := hs.trans (List.take_prefix k _)
      obtain ⟨rfl, -⟩ := Slice.append_inj htail
      have hle := hs.length_le
      rw [List.length_take] at hle
      omega
    · obtain ⟨done, todo, rfl, hdone, hnext⟩ := ih (k - r.bytes.length)
      refine ⟨r :: done, todo, rfl, ?_, fun s hs => ?_⟩
      · rw [List.take_append, List.take_of_length_le (by omega)]
        exact hdone.cons
      · have := hnext s hs
        rw [List.flatMap_cons, List.length_append]
        omega

theorem exists_tiles (w : List UInt8) : ∃ rs, Tiles w rs := by
  induction hn : w.length using Nat.strongRecOn generalizing w with
  | _ n ih =>
    by_cases hstart : ∃ r : Slice, r.bytes <+: w
    · obtain ⟨r, rest, rfl⟩ := hstart
      have hpos := List.length_pos_iff.2 r.bytes_ne_nil
      obtain ⟨rs, hrs⟩ := ih rest.length (by rw [← hn, List.length_append]; omega) rest rfl
      exact ⟨r :: rs, hrs.cons⟩
    · exact ⟨[], tiles_nil_iff.2 fun r h => hstart ⟨r, h⟩⟩

theorem Tiles.unique {w : List UInt8} {rs rs' : List Slice} (h : Tiles w rs) (h' : Tiles w rs') : rs = rs' := by
  obtain ⟨rest, rfl, hrest⟩ := h
  obtain ⟨rest', heq, hrest'⟩ := h'
  induction rs generalizing rs' with
  | nil =>
    cases rs' with
    | nil => rfl
    | cons s ss =>
      refine absurd ⟨ss.flatMap Slice.bytes ++ rest', ?_⟩ (hrest s)
      rw [List.flatMap_nil, List.nil_append] at heq
      rw [heq, List.flatMap_cons, List.append_assoc]
  | cons r rs ih =>
    cases rs' with
    | nil =>
      refine absurd ⟨rs.flatMap Slice.bytes ++ rest, ?_⟩ (hrest' r)
      rw [List.flatMap_nil, List.nil_append] at heq
      rw [← heq, List.flatMap_cons, List.append_assoc]
    | cons s ss =>
      rw [List.flatMap_cons, List.flatMap_cons, List.append_assoc, List.append_assoc] at heq
      obtain ⟨rfl, htail⟩ := Slice.append_inj heq
      rw [ih htail]

end MessageCodec.Wire
