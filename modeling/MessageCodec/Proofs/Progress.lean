import MessageCodec.Proofs.Loop

/-!
# Progress

No loop over bytes carries a count of its turns. Each ends because a reader either refuses and stays where it
is, or uses up at least one byte and none beyond the end. So the guards of the loops never fire, and a message
that holds messages of its own type is no harder than another: the payload of a child is shorter than the bytes
of its parent by the tag and the length in front of it.

For the last point the decoder of the children is made a parameter of the loop. Two decoders that agree on
payloads shorter than the data cannot be told apart by decoding the data.
-/

namespace MessageCodec

namespace Wire

/-! ### What is left of some bytes -/

/-- The first bytes are what is left of the second after at least one byte was used up. -/
def LeftOf (rest bs : List UInt8) : Prop := ∃ p, p ≠ [] ∧ bs = p ++ rest

theorem LeftOf.length_lt {rest bs : List UInt8} (h : LeftOf rest bs) : rest.length < bs.length := by
  obtain ⟨p, hp, rfl⟩ := h
  have hpos := List.length_pos_iff.2 hp
  rw [List.length_append]
  omega

theorem LeftOf.trans {after rest bs : List UInt8} (h : LeftOf after rest) (h' : LeftOf rest bs) :
    LeftOf after bs := by
  obtain ⟨p, _, rfl⟩ := h
  obtain ⟨q, hq, rfl⟩ := h'
  exact ⟨q ++ p, List.append_ne_nil_of_left_ne_nil hq p, (List.append_assoc q p after).symm⟩

/-- Seen from a position, using up bytes is moving ahead within the data. -/
theorem LeftOf.position {data rest : List UInt8} {cursor : Nat} (h : LeftOf rest (data.drop cursor)) :
    cursor < data.length - rest.length ∧ data.length - rest.length ≤ data.length := by
  obtain ⟨p, hp, hdata⟩ := h
  have hstop := length_sub_of_drop hdata hp
  have hpos := List.length_pos_iff.2 hp
  omega

theorem Reader.Frames.leftOf {α : Type} {r : Reader α} {form : WireType} (h : r.Frames form)
    {bs rest : List UInt8} {a : α} (hread : r bs = Option.some (a, rest)) : LeftOf rest bs := by
  obtain ⟨p, hbs, hp⟩ := h.some hread 0
  exact ⟨p, hp.ne_nil, hbs⟩

theorem skip_leftOf {code number : Nat} {bs rest : List UInt8} (h : skip code number bs = some rest) :
    LeftOf rest bs := by
  obtain ⟨form, p, _, hbs, hp⟩ := skip_some h
  exact ⟨p, hp.ne_nil, hbs⟩

/-! ### Readers at a position -/

/-- Wherever it is used, the reader refuses and stays there, or reads an item and moves ahead, but not beyond
the end of the data. -/
def Reader.Moves {α : Type} (r : Reader α) : Prop :=
  ∀ (data : List UInt8) (cursor : Nat),
    r.at data cursor = (none, cursor) ∨
      ∃ a stop, r.at data cursor = (some a, stop) ∧ cursor < stop ∧ stop ≤ data.length

theorem Reader.Frames.moves {α : Type} {r : Reader α} {form : WireType} (h : r.Frames form) : r.Moves := by
  intro data cursor
  rw [Reader.at]
  cases hread : r (data.drop cursor) with
  | none => exact .inl rfl
  | some found => exact .inr ⟨found.1, _, rfl, (h.leftOf hread).position⟩

theorem skipAt_moves (data : List UInt8) (cursor code number : Nat) :
    skipAt data cursor code number = cursor ∨
      cursor < skipAt data cursor code number ∧ skipAt data cursor code number ≤ data.length := by
  rw [skipAt]
  cases hskip : skip code number (data.drop cursor) with
  | none => exact .inl rfl
  | some rest => exact .inr (skip_leftOf hskip).position

/-! ### Packed elements and groups -/

theorem readAll_of_none {α : Type} {r : Reader α} {bs : List UInt8} (h : r bs = none) : readAll r bs = [] := by
  rw [readAll, h]
  exact ite_self []

theorem readAll_of_some {α : Type} {r : Reader α} {bs rest : List UInt8} {a : α} (h : r bs = some (a, rest))
    (hrest : LeftOf rest bs) : readAll r bs = a :: readAll r rest := by
  have hlt := hrest.length_lt
  have hne : ¬ bs.isEmpty := by
    intro hempty
    rw [List.isEmpty_iff.1 hempty] at hlt
    exact Nat.not_lt_zero _ hlt
  rw [readAll, if_neg hne, h]
  exact if_pos hlt

/-- What the loop over a group goes on with after a field. There is nothing after an end tag, or where a field
cannot be passed over. -/
def afterField (bs : List UInt8) : Option (List UInt8) := do
  let (tag, rest) ← readVarint32 bs
  if tag % 8 = WireType.endGroup.code then none else skip (tag % 8) (tag / 8) rest

/-- What follows the end tag of a group with a number. -/
def afterEnd (number : Nat) (bs : List UInt8) : Option (List UInt8) := do
  let (tag, rest) ← readVarint32 bs
  if tag % 8 = WireType.endGroup.code ∧ tag / 8 = number then some rest else none

/-- Fields are passed over until there is none, and then the end tag of the group has to follow. -/
theorem skipGroup_eq (number : Nat) (bs : List UInt8) :
    skipGroup number bs = ((afterField bs).map (skipGroup number)).getD (afterEnd number bs) := by
  rw [skipGroup, afterField, afterEnd]
  split
  · rename_i hread
    rw [hread]
    rfl
  · rename_i tag rest hread
    simp only [hread, Option.bind_eq_bind, Option.bind_some]
    by_cases hend : tag % 8 = WireType.endGroup.code
    · simp only [hend, if_true, true_and, Option.map_none, Option.getD_none]
    · cases hskip : skip (tag % 8) (tag / 8) rest with
      | none => simp only [hend, if_false, false_and, Option.map_none, Option.getD_none]
      | some after =>
        simp only [hend, if_false, (skip_leftOf hskip).length_lt, if_true, Option.map_some, Option.getD_some]

theorem afterField_leftOf {bs after : List UInt8} (h : afterField bs = some after) : LeftOf after bs := by
  rw [afterField] at h
  obtain ⟨⟨tag, rest⟩, hread, hskip⟩ := Option.bind_eq_some_iff.1 h
  dsimp only at hskip
  split at hskip
  · simp at hskip
  · exact (skip_leftOf hskip).trans (readVarint32_frames.leftOf hread)

end Wire

/-! ### Messages in messages -/

namespace Codec

open Wire

variable {child child' : String → List UInt8 → Except Error Value} {c : Codec} {g : Gathered}
  {data after : List UInt8}

/-- The decoder of the messages is asked for payloads shorter than the data only. -/
theorem turnBy_congr (h : ∀ name payload, payload.length < data.length → child name payload = child' name payload) :
    c.turnBy child g data = c.turnBy child' g data := by
  rw [turnBy, turnBy]
  cases htag : readTag data with
  | none => rfl
  | some found =>
    obtain ⟨⟨number, code⟩, rest⟩ := found
    have hrest := readTag_advances _ _ _ htag
    dsimp only [Option.bind_eq_bind, Option.bind_some]
    split
    · rfl
    · rfl
    · rename_i f name _
      cases hread : readDelimited rest with
      | none => rfl
      | some found =>
        have hshorter := readDelimited_lt hread
        dsimp only [Option.bind_some]
        rw [h name found.1 (by omega)]
    · rfl

theorem gatherBy_eq (child : String → List UInt8 → Except Error Value) (c : Codec) (g : Gathered)
    (data : List UInt8) :
    c.gatherBy child g data =
      match c.turnBy child g data with
      | none => .ok g
      | some (taken, after) => taken >>= fun g => c.gatherBy child g after := by
  rw [gatherBy]
  split <;> simp only [*]

theorem gatherBy_congr
    (h : ∀ name payload, payload.length < data.length → child name payload = child' name payload) :
    c.gatherBy child g data = c.gatherBy child' g data := by
  induction hn : data.length using Nat.strongRecOn generalizing data g with
  | _ n ih =>
    rw [gatherBy_eq, gatherBy_eq, turnBy_congr h]
    cases hturn : c.turnBy child' g data with
    | none => rfl
    | some found =>
      obtain ⟨taken, after⟩ := found
      have hlt := turnBy_lt hturn
      dsimp only
      congr 1
      funext g'
      exact ih after.length (by omega) (fun name payload hp => h name payload (by omega)) rfl

end Codec

namespace Codecs

open Codec Wire

/-- How the message that a field holds is decoded. -/
def decodeChild (cs : Codecs) (name : String) (payload : List UInt8) : Except Error Value := do
  let inner ← cs.child name
  cs.decode inner payload

private theorem turn_eq_turnBy (cs : Codecs) (c : Codec) (g : Gathered) (data : List UInt8) :
    cs.turn c g data = c.turnBy cs.decodeChild g data := by
  rw [turn, turnBy]
  congr 1
  funext found
  obtain ⟨⟨number, code⟩, rest⟩ := found
  dsimp only
  cases c.arm? number code with
  | none => rfl
  | some taker =>
    obtain ⟨f, arm⟩ := taker
    cases arm with
    | packed type => rfl
    | single type => rfl
    | message name => simp only [decodeChild, bind_assoc]

theorem gather_eq_gatherBy (cs : Codecs) (c : Codec) (g : Gathered) (data : List UInt8) :
    cs.gather c g data = c.gatherBy cs.decodeChild g data := by
  induction hn : data.length using Nat.strongRecOn generalizing data g with
  | _ n ih =>
    rw [gather_eq_turn, gatherBy_eq, turn_eq_turnBy]
    cases hturn : c.turnBy cs.decodeChild g data with
    | none => rfl
    | some found =>
      obtain ⟨taken, after⟩ := found
      have hlt := turnBy_lt hturn
      dsimp only
      congr 1
      funext g'
      exact ih after.length (by omega) g' after rfl

private theorem turn_leftOf {cs : Codecs} {c : Codec} {g : Gathered} {data after : List UInt8}
    {taken : Except Error Gathered} (h : cs.turn c g data = some (taken, after)) : LeftOf after data := by
  obtain ⟨r, hdata⟩ := exists_slice_of_turn h
  exact ⟨r.bytes, r.bytes_ne_nil, hdata⟩

/-- Every reader, and passing over a payload of any form, stays where it is or moves ahead within the data. So
the loops over packed elements, over the fields of a group and over the records of a message go on, without a
guard, with what is left of the bytes after at least one was used up. And decoding a message asks for its
children with payloads shorter than its own bytes only. -/
theorem readers_progress :
    (readVarint64.Moves ∧ readVarint32.Moves ∧ readFixed32.Moves ∧ readSfixed32.Moves ∧ readFixed64.Moves ∧
      readSfixed64.Moves ∧ readSingle.Moves ∧ readDouble.Moves ∧ readDelimited.Moves ∧ readText.Moves ∧
      readBase64.Moves) ∧
    (∀ (data : List UInt8) (cursor : Nat) (code number : Int),
      skipFieldAt data cursor code number = cursor ∨
        cursor < skipFieldAt data cursor code number ∧ skipFieldAt data cursor code number ≤ data.length) ∧
    (∀ (type : ElementType) (bs : List UInt8),
      (type.reader bs = none → readAll type.reader bs = []) ∧
        ∀ v rest, type.reader bs = some (v, rest) →
          readAll type.reader bs = v :: readAll type.reader rest ∧ LeftOf rest bs) ∧
    (∀ (number : Nat) (bs : List UInt8),
      (afterField bs = none → skipGroup number bs = afterEnd number bs) ∧
        ∀ after, afterField bs = some after →
          skipGroup number bs = skipGroup number after ∧ LeftOf after bs) ∧
    ∀ (cs : Codecs) (c : Codec) (data : List UInt8),
      (∀ g, (cs.turn c g data = none → cs.gather c g data = .ok g) ∧
        ∀ taken after, cs.turn c g data = some (taken, after) →
          cs.gather c g data = (taken >>= fun g => cs.gather c g after) ∧ LeftOf after data) ∧
      ∀ child : String → List UInt8 → Except Error Value,
        (∀ name payload, payload.length < data.length → child name payload = cs.decodeChild name payload) →
          cs.decode c data = do
            let gathered ← c.gatherBy child {} data
            return finish cs.fillDefaults c gathered := by
  refine ⟨?_, fun data cursor code number => skipAt_moves data cursor _ _, ?_, ?_, fun cs c data => ⟨?_, ?_⟩⟩
  · exact ⟨readVarint64_frames.moves, readVarint32_frames.moves, (take_frames_fixed32.map _).moves,
      (take_frames_fixed32.map _).moves, (take_frames_fixed64.map _).moves,
      ((take_frames_fixed64.map _).map _).moves, (take_frames_fixed32.map _).moves,
      (take_frames_fixed64.map _).moves, readDelimited_frames.moves, (readDelimited_frames.map _).moves,
      (readDelimited_frames.map _).moves⟩
  · intro type bs
    refine ⟨readAll_of_none, fun v rest hread => ?_⟩
    have hrest := type.reader_frames.leftOf hread
    exact ⟨readAll_of_some hread hrest, hrest⟩
  · intro number bs
    rw [skipGroup_eq]
    refine ⟨fun hnone => by rw [hnone]; rfl, fun after hafter => ⟨by rw [hafter]; rfl, afterField_leftOf hafter⟩⟩
  · intro g
    rw [gather_eq_turn]
    exact ⟨fun hnone => by rw [hnone], fun taken after hturn => ⟨by rw [hturn], turn_leftOf hturn⟩⟩
  · intro child hchild
    rw [decode, gather_eq_gatherBy, gatherBy_congr hchild]

end Codecs

end MessageCodec
