import MessageCodec.Codec.Decode
import MessageCodec.Proofs.Outcome
import MessageCodec.Proofs.Position
import MessageCodec.Proofs.Table

/-!
# The decoding loop

Every reader that an arm may use ends where the grammar of records says the payload ends, and refuses
exactly what is no payload. So a turn of the loop uses up one record, whichever arm takes it, and the
loop is a fold over the records that the bytes are cut into. The cut does not depend on the message.
-/

namespace MessageCodec

namespace Codec

open Wire

theorem ElementType.reader_frames (type : ElementType) : type.reader.Frames type.wireType := by
  cases type with
  | enum byName byNumber zeroName => exact readVarint64_frames.map _
  | scalar type =>
    cases type
    case string => exact (readDelimited_frames.map _).map _
    case bytes => exact (readDelimited_frames.map _).map _
    case fixed32 => exact (take_frames_fixed32.map _).map _
    case sfixed32 => exact (take_frames_fixed32.map _).map _
    case float => exact (take_frames_fixed32.map _).map _
    case fixed64 => exact (take_frames_fixed64.map _).map _
    case sfixed64 => exact ((take_frames_fixed64.map _).map _).map _
    case double => exact (take_frames_fixed64.map _).map _
    all_goals exact readVarint64_frames.map _

def Arm.form : Arm → WireType
  | packed _ => .delimited
  | single type => type.wireType
  | message _ => .delimited

theorem Field.arm?_form {f : Field} {number code : Nat} {arm : Arm} (h : f.arm? number code = some arm) :
    code = arm.form.code := by
  unfold Field.arm? at h
  split at h
  · simp at h
  · split at h
    · split at h
      · rename_i hpacked
        obtain rfl := Option.some.inj h
        simp only [Bool.and_eq_true, decide_eq_true_eq] at hpacked
        exact hpacked.2
      · split at h
        · rename_i hcode
          obtain rfl := Option.some.inj h
          exact hcode
        · simp at h
    · split at h
      · rename_i hcode
        obtain rfl := Option.some.inj h
        exact hcode
      · simp at h

theorem Field.repeated_of_arm? {f : Field} {number code : Nat} {type : ElementType}
    (h : f.arm? number code = some (.packed type)) : f.repeated = true := by
  unfold Field.arm? at h
  split at h
  · simp at h
  · split at h
    · split at h
      · rename_i hpacked
        simp only [Bool.and_eq_true] at hpacked
        exact hpacked.1.1
      · split at h <;> simp at h
    · split at h <;> simp at h

theorem arm?_some {c : Codec} {number code : Nat} {f : Field} {arm : Arm}
    (h : c.arm? number code = some (f, arm)) : f ∈ c.fields ∧ f.arm? number code = some arm := by
  obtain ⟨f', hf, harm⟩ := List.exists_of_findSome?_eq_some h
  obtain ⟨a, ha, heq⟩ := Option.map_eq_some_iff.1 harm
  obtain ⟨rfl, rfl⟩ := Prod.mk.inj heq
  exact ⟨hf, ha⟩

/-- The tag of a record is read off its front. -/
theorem readTag_slice (r : Slice) (rest : List UInt8) :
    readTag (r.bytes ++ rest) = some ((r.number, r.form.code), r.payload ++ rest) := by
  rw [readTag, Slice.bytes, List.append_assoc, readVarint32_append r.tag_varint]
  simp only [r.tag_val_div, r.tag_val_mod]
  rw [if_neg (by have := r.number_pos; omega)]

/-- What a tag and a payload that follows it make up. -/
theorem exists_slice {data rest after p : List UInt8} {number : Nat} {form : WireType}
    (htag : readTag data = some ((number, form.code), rest)) (hrest : rest = p ++ after)
    (hp : IsPayload form number p) : ∃ r : Slice, data = r.bytes ++ after := by
  unfold readTag at htag
  split at htag
  · rename_i tag tail hread
    obtain ⟨t, rfl, ht, rfl⟩ := readVarint32_some hread
    split at htag
    · simp at htag
    · rename_i hpos
      obtain ⟨hnumber, rfl⟩ := Prod.mk.inj (Option.some.inj htag)
      obtain ⟨hnumber, hcode⟩ := Prod.mk.inj hnumber
      refine ⟨⟨number, form, t, p, ht, by omega, by omega, hp⟩, ?_⟩
      rw [hrest, Slice.bytes, List.append_assoc]
  · simp at htag

namespace Gathered

def take (g : Gathered) (f : Field) (values : List Value) : Except Error Gathered :=
  if f.repeated then g.append f values
  else .ok { g with entries := values.foldl (fun entries v => entries.assign f.outputs v) g.entries }

theorem take_of_repeated (g : Gathered) {f : Field} (h : f.repeated = true) (values : List Value) :
    g.take f values = g.append f values := if_pos h

theorem take_single (g : Gathered) (f : Field) (v : Value) : g.take f [v] = g.add f v := rfl

end Gathered

end Codec

namespace Codecs

open Codec Wire

/-- The values that an arm finds in a payload. -/
def valuesOf (cs : Codecs) (arm : Arm) (payload : List UInt8) : Except Error (List Value) :=
  match arm with
  | .packed type => .ok (((readDelimited payload).map fun p => readAll type.reader p.1).getD [])
  | .single type => .ok (((type.reader payload).map Prod.fst).toList)
  | .message child => do
    let inner ← cs.child child
    match readDelimited payload with
    | none => return []
    | some (block, _) =>
      let v ← cs.decode inner block
      return [v]

/-- What a record adds to what has been gathered: the arm that fits it takes its values, and without
one it is kept. -/
def consume (cs : Codecs) (c : Codec) (g : Gathered) (r : Slice) : Except Error Gathered :=
  match c.arm? r.number r.form.code with
  | some (f, arm) => do
    let values ← cs.valuesOf arm r.payload
    g.take f values
  | none => .ok (g.keep r.bytes)

/-- One turn of the loop, by the readers of the arms: what is gathered then, and the bytes that are
left. There is none where a tag or a payload cannot be read. -/
def turn (cs : Codecs) (c : Codec) (g : Gathered) (data : List UInt8) :
    Option (Except Error Gathered × List UInt8) := do
  let ((number, code), rest) ← readTag data
  match c.arm? number code with
  | some (f, .packed type) =>
    let (payload, after) ← readDelimited rest
    return (g.append f (readAll type.reader payload), after)
  | some (f, .single type) =>
    let (v, after) ← type.reader rest
    return (g.add f v, after)
  | some (f, .message child) =>
    let (payload, after) ← readDelimited rest
    let taken := do
      let inner ← cs.child child
      let v ← cs.decode inner payload
      g.add f v
    return (taken, after)
  | none =>
    let after ← Wire.skip code number rest
    return (.ok (g.keep (data.take (data.length - after.length))), after)

/-- The loop takes turns until there is none. -/
theorem gather_eq_turn (cs : Codecs) (c : Codec) (g : Gathered) (data : List UInt8) :
    cs.gather c g data =
      match cs.turn c g data with
      | none => .ok g
      | some (taken, after) => taken >>= fun g => cs.gather c g after := by
  rw [gather]
  split
  · rename_i htag
    simp only [turn, htag]
    rfl
  · rename_i number code rest htag
    simp only [turn, htag, Option.bind_eq_bind, Option.bind_some]
    cases harm : c.arm? number code with
    | none =>
      dsimp only
      split
      · rename_i hread
        rw [hread]
        rfl
      · rename_i hread
        rw [hread]
        rfl
    | some found =>
      obtain ⟨f, arm⟩ := found
      cases arm <;> dsimp only <;> split <;> rename_i hread <;> rw [hread]
      all_goals simp only [Option.bind_some, Option.bind_none, decode, bind_assoc, pure_bind, Option.pure_def]

/-- Bytes that are used up in one turn. -/
theorem decode_of_turn {cs : Codecs} {c : Codec} {w : List UInt8} {g : Gathered}
    (h : cs.turn c {} w = some (.ok g, [])) : cs.decode c w = .ok (finish cs.fillDefaults c g) := by
  have hend : cs.turn c g [] = none := rfl
  rw [decode, gather_eq_turn, h]
  dsimp only
  rw [ok_bind, gather_eq_turn, hend]
  rfl

/-- Where a record begins, a turn uses up that record and nothing else. -/
theorem turn_slice (cs : Codecs) (c : Codec) (g : Gathered) (r : Slice) (rest : List UInt8) :
    cs.turn c g (r.bytes ++ rest) = some (cs.consume c g r, rest) := by
  rw [turn, readTag_slice, consume]
  dsimp only [Option.bind_eq_bind, Option.bind_some]
  cases harm : c.arm? r.number r.form.code with
  | none =>
    dsimp only
    rw [skip_append r.payload_form, Option.bind_some, List.length_append, Nat.add_sub_cancel,
      List.take_left]
    rfl
  | some found =>
    obtain ⟨f, arm⟩ := found
    have harm' := (arm?_some harm).2
    have hform : r.form = arm.form := WireType.code_injective (Field.arm?_form harm')
    have hpayload := hform ▸ r.payload_form
    cases arm with
    | packed type =>
      obtain ⟨block, hblock⟩ := readDelimited_frames.append hpayload
      have halone := hblock []
      rw [List.append_nil] at halone
      dsimp only [valuesOf]
      rw [hblock, halone]
      simp only [Option.bind_some, Option.map_some, Option.getD_some,
        Gathered.take_of_repeated g (Field.repeated_of_arm? harm')]
      rfl
    | single type =>
      obtain ⟨v, hv⟩ := type.reader_frames.append hpayload
      have halone := hv []
      rw [List.append_nil] at halone
      dsimp only [valuesOf]
      rw [hv, halone]
      rfl
    | message child =>
      obtain ⟨block, hblock⟩ := readDelimited_frames.append hpayload
      have halone := hblock []
      rw [List.append_nil] at halone
      dsimp only [valuesOf]
      rw [hblock, halone]
      simp only [Option.bind_some, bind_assoc, pure_bind, Gathered.take_single]
      rfl

/-- A turn is taken only where a record begins. -/
theorem exists_slice_of_turn {cs : Codecs} {c : Codec} {g : Gathered} {data after : List UInt8}
    {taken : Except Error Gathered} (h : cs.turn c g data = some (taken, after)) :
    ∃ r : Slice, data = r.bytes ++ after := by
  rw [turn] at h
  simp only [Option.bind_eq_bind, Option.bind_eq_some_iff] at h
  obtain ⟨⟨⟨number, code⟩, rest⟩, htag, h⟩ := h
  dsimp only at h
  cases harm : c.arm? number code with
  | none =>
    rw [harm] at h
    simp only [Option.bind_eq_some_iff, Option.pure_def, Option.some.injEq, Prod.mk.injEq] at h
    obtain ⟨_, hskip, _, rfl⟩ := h
    obtain ⟨form, p, rfl, hrest, hp⟩ := skip_some hskip
    exact exists_slice htag hrest hp
  | some found =>
    obtain ⟨f, arm⟩ := found
    rw [harm] at h
    obtain rfl := Field.arm?_form (arm?_some harm).2
    cases arm with
    | packed type =>
      simp only [Option.bind_eq_some_iff, Option.pure_def, Option.some.injEq, Prod.mk.injEq] at h
      obtain ⟨⟨block, _⟩, hread, _, rfl⟩ := h
      obtain ⟨p, hrest, hp⟩ := readDelimited_frames.some hread number
      exact exists_slice htag hrest hp
    | single type =>
      simp only [Option.bind_eq_some_iff, Option.pure_def, Option.some.injEq, Prod.mk.injEq] at h
      obtain ⟨⟨v, _⟩, hread, _, rfl⟩ := h
      obtain ⟨p, hrest, hp⟩ := type.reader_frames.some hread number
      exact exists_slice htag hrest hp
    | message child =>
      simp only [Option.bind_eq_some_iff, Option.pure_def, Option.some.injEq, Prod.mk.injEq] at h
      obtain ⟨⟨block, _⟩, hread, _, rfl⟩ := h
      obtain ⟨p, hrest, hp⟩ := readDelimited_frames.some hread number
      exact exists_slice htag hrest hp

theorem turn_eq_none {rest : List UInt8} (h : ∀ r : Slice, ¬ r.bytes <+: rest) (cs : Codecs) (c : Codec)
    (g : Gathered) : cs.turn c g rest = none := by
  rw [Option.eq_none_iff_forall_not_mem]
  rintro ⟨taken, after⟩ hturn
  obtain ⟨r, rfl⟩ := exists_slice_of_turn hturn
  exact h r (List.prefix_append _ _)

/-- The loop is a fold over the records of the cut. -/
theorem gather_of_tiles {w : List UInt8} {rs : List Slice} (h : Tiles w rs) (cs : Codecs) (c : Codec)
    (g : Gathered) : cs.gather c g w = rs.foldlM (cs.consume c) g := by
  obtain ⟨rest, rfl, hrest⟩ := h
  induction rs generalizing g with
  | nil => rw [List.flatMap_nil, List.nil_append, gather_eq_turn, turn_eq_none hrest, List.foldlM_nil]; rfl
  | cons r rs ih =>
    rw [List.flatMap_cons, List.append_assoc, gather_eq_turn, turn_slice, List.foldlM_cons]
    dsimp only
    congr 1
    funext g'
    exact ih g'

end Codecs

/-! ### What is kept -/

namespace Codec

open Wire

/-- The records among some that fit no arm, one after the other. -/
def kept (c : Codec) (rs : List Slice) : List UInt8 :=
  (rs.filter fun r => (c.arm? r.number r.form.code).isNone).flatMap Slice.bytes

theorem kept_cons (c : Codec) (r : Slice) (rs : List Slice) :
    c.kept (r :: rs) = (if (c.arm? r.number r.form.code).isNone then r.bytes else []) ++ c.kept rs := by
  rw [kept, List.filter_cons, kept]
  split
  · rw [List.flatMap_cons]
  · rw [List.nil_append]

theorem kept_append (c : Codec) (rs rs' : List Slice) : c.kept (rs ++ rs') = c.kept rs ++ c.kept rs' := by
  rw [kept, List.filter_append, List.flatMap_append, kept, kept]

theorem Gathered.take_unknown {g g' : Gathered} {f : Field} {values : List Value}
    (h : g.take f values = .ok g') : g'.unknown = g.unknown := by
  unfold Gathered.take at h
  split at h
  · unfold Gathered.append at h
    split at h
    · rw [← Except.ok.inj h]
    · simp at h
  · rw [← Except.ok.inj h]

theorem Gathered.take_get? {g g' : Gathered} {f : Field} {values : List Value} {key : String}
    (hkey : key ∉ f.outputs) (h : g.take f values = .ok g') : g'.entries.get? key = g.entries.get? key := by
  unfold Gathered.take at h
  split at h
  · unfold Gathered.append at h
    split at h
    · rename_i entries happend
      rw [← Except.ok.inj h]
      exact Entries.get?_append_of_not_mem happend hkey
    · simp at h
  · rw [← Except.ok.inj h]
    exact (Entries.get?_foldl_assign _ _ _ _).trans (if_neg hkey)

theorem get?_fillField {f : Field} {key : String} (hkey : key ∉ f.outputs) (entries : Entries) :
    (fillField entries f).get? key = entries.get? key := by
  unfold fillField
  split
  · exact Entries.get?_fillDefault_of_not_mem hkey _ _
  · split
    · rfl
    · split
      · rfl
      · exact Entries.get?_fillDefault_of_not_mem hkey _ _

theorem get?_foldl_fillField {fields : List Field} {key : String} (hkey : ∀ f ∈ fields, key ∉ f.outputs)
    (entries : Entries) : (fields.foldl fillField entries).get? key = entries.get? key := by
  induction fields generalizing entries with
  | nil => rfl
  | cons f fields ih =>
    rw [List.foldl_cons, ih (fun f' hf' => hkey f' (List.mem_cons_of_mem _ hf')),
      get?_fillField (hkey f List.mem_cons_self)]

end Codec

namespace Codecs

open Codec Wire

private theorem consume_unknown {cs : Codecs} {c : Codec} {g g' : Gathered} {r : Slice}
    (h : cs.consume c g r = .ok g') :
    g'.unknown = g.unknown ++ if (c.arm? r.number r.form.code).isNone then r.bytes else [] := by
  rw [consume] at h
  split at h
  · rename_i f arm harm
    rw [harm, Option.isNone_some, if_neg (by simp), List.append_nil]
    obtain ⟨values, _, htake⟩ := bind_eq_ok.1 h
    exact Gathered.take_unknown htake
  · rename_i harm
    rw [harm, Option.isNone_none, if_pos rfl, ← Except.ok.inj h]
    rfl

theorem foldlM_unknown {cs : Codecs} {c : Codec} {rs : List Slice} {g g' : Gathered}
    (h : rs.foldlM (cs.consume c) g = .ok g') : g'.unknown = g.unknown ++ c.kept rs := by
  induction rs generalizing g with
  | nil =>
    rw [List.foldlM_nil] at h
    rw [← Except.ok.inj h, kept, List.filter_nil, List.flatMap_nil, List.append_nil]
  | cons r rs ih =>
    rw [List.foldlM_cons] at h
    obtain ⟨mid, hstep, hrest⟩ := bind_eq_ok.1 h
    rw [ih hrest, consume_unknown hstep, kept_cons, List.append_assoc]

/-- A record touches no key but those of the field that takes it. -/
theorem consume_get? {cs : Codecs} {c : Codec} {key : String} (hkey : ∀ f ∈ c.fields, key ∉ f.outputs)
    {g g' : Gathered} {r : Slice} (h : cs.consume c g r = .ok g') :
    g'.entries.get? key = g.entries.get? key := by
  rw [consume] at h
  split at h
  · rename_i f arm harm
    obtain ⟨values, _, htake⟩ := bind_eq_ok.1 h
    exact Gathered.take_get? (hkey f (arm?_some harm).1) htake
  · rw [← Except.ok.inj h]
    rfl

/-- What is decoded under a key that no field writes: the kept records under theirs, nothing else. -/
theorem decode_member?_of_not_output {cs : Codecs} {c : Codec} {w : List UInt8} {rs : List Slice} {v : Value}
    {key : String} (h : Tiles w rs) (hkey : ∀ f ∈ c.fields, key ∉ f.outputs) (hv : cs.decode c w = .ok v) :
    v.member? key = if key = unknownKey ∧ c.kept rs ≠ [] then
      some (.text (Base64.encodeText (c.kept rs))) else none := by
  obtain ⟨g, hg, hfinish⟩ := bind_eq_ok.1 hv
  rw [gather_of_tiles h] at hg
  have hunknown := foldlM_unknown hg
  have hentries : g.entries.get? key = none :=
    foldlM_invariant (P := fun g => g.entries.get? key = none)
      (fun g r g' hnone hstep => (consume_get? hkey hstep).trans hnone) rfl hg
  obtain rfl := Except.ok.inj hfinish
  rw [finish, Value.member?, Entries.get?_attachUnknown, hunknown, List.nil_append, apply_ite (Table.get? · key),
    get?_foldl_fillField hkey, ite_self, hentries]

/-- Records that are kept stand under their key whatever the fields are. -/
theorem decode_member?_unknownKey {cs : Codecs} {c : Codec} {w : List UInt8} {rs : List Slice} {v : Value}
    (h : Tiles w rs) (hkept : c.kept rs ≠ []) (hv : cs.decode c w = .ok v) :
    v.member? unknownKey = some (.text (Base64.encodeText (c.kept rs))) := by
  obtain ⟨g, hg, hfinish⟩ := bind_eq_ok.1 hv
  rw [gather_of_tiles h] at hg
  have hunknown := foldlM_unknown hg
  obtain rfl := Except.ok.inj hfinish
  rw [finish, Value.member?, Entries.get?_attachUnknown, hunknown, List.nil_append, if_pos ⟨rfl, hkept⟩]

/-- The bytes alone decide how they are cut into records; the loop of any message takes just these
records one by one, stops where they end, and keeps those that fit no arm. -/
theorem decode_follows_cut (w : List UInt8) :
    ∃ rs rest, w = rs.flatMap Slice.bytes ++ rest ∧ (∀ rs', Tiles w rs' ↔ rs' = rs) ∧
      ∀ (cs : Codecs) (c : Codec),
        (∀ done r todo, rs = done ++ r :: todo → ∀ g,
          cs.turn c g (r.bytes ++ (todo.flatMap Slice.bytes ++ rest)) =
            some (cs.consume c g r, todo.flatMap Slice.bytes ++ rest)) ∧
        (∀ g, cs.turn c g rest = none) ∧
        cs.gather c {} w = rs.foldlM (cs.consume c) {} ∧
        (∀ g, cs.gather c {} w = .ok g → g.unknown = c.kept rs) ∧
        ∀ v, cs.decode c w = .ok v →
          (c.kept rs ≠ [] → v.member? unknownKey = some (.text (Base64.encodeText (c.kept rs)))) ∧
          (c.kept rs = [] → (∀ f ∈ c.fields, unknownKey ∉ f.outputs) → v.member? unknownKey = none) := by
  obtain ⟨rs, htiles⟩ := exists_tiles w
  obtain ⟨rest, hw, hrest⟩ := id htiles
  refine ⟨rs, rest, hw, fun rs' => ⟨fun h => h.unique htiles, fun h => h ▸ htiles⟩, fun cs c => ?_⟩
  refine ⟨fun _ r _ _ g => cs.turn_slice c g r _, turn_eq_none hrest cs c, gather_of_tiles htiles cs c {}, ?_, ?_⟩
  · intro g hg
    rw [gather_of_tiles htiles] at hg
    exact foldlM_unknown hg
  · intro v hv
    refine ⟨fun hkept => decode_member?_unknownKey htiles hkept hv, fun hkept hkey => ?_⟩
    rw [decode_member?_of_not_output htiles hkey hv, if_neg (fun h => h.2 hkept)]

end Codecs

end MessageCodec
