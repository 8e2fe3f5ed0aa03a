import MessageCodec.Proofs.Contract
import MessageCodec.Proofs.Closure
import MessageCodec.Proofs.Encoding
import MessageCodec.Proofs.Rendering

/-!
# When encoding fails

Whatever a caller hands over for a field, its coercion gives a value in the range of the field's type, so
that every writer is given what it can write. What is left is the limit on the digits of an integer that
is converted to text or from it: a codec fails on it alone, and only on a value that has such an
integer, or a text of so many digits, somewhere inside.
-/

namespace MessageCodec

open Codec Wire

/-- The cause is an integer or a digit text beyond the digit limit. -/
def Error.isDigitLimit : Error → Bool
  | numeralTooLong _ | integerTooLong => true
  | _ => false

/-- A computation can fail on the digit limit alone, and only if the condition holds. -/
def LimitedBy (P : Prop) {α : Type} (x : Except Error α) : Prop := ∀ e, x = .error e → e.isDigitLimit = true ∧ P

namespace LimitedBy

variable {P Q : Prop} {α β : Type}

theorem ok (a : α) : LimitedBy P (Except.ok a) := FailsOnly.ok a

theorem error {e : Error} (he : e.isDigitLimit = true) (h : P) : LimitedBy P (Except.error e : Except Error α) :=
  FailsOnly.error ⟨he, h⟩

theorem imp {x : Except Error α} (hx : LimitedBy P x) (h : P → Q) : LimitedBy Q x :=
  FailsOnly.imp hx fun _ he => ⟨he.1, h he.2⟩

theorem bind {x : Except Error α} {f : α → Except Error β} (hx : LimitedBy P x)
    (hf : ∀ a, x = .ok a → LimitedBy P (f a)) : LimitedBy P (x >>= f) :=
  FailsOnly.bind hx hf

theorem mapM {f : α → Except Error β} {as : List α} (h : ∀ a ∈ as, LimitedBy P (f a)) : LimitedBy P (as.mapM f) :=
  FailsOnly.mapM h

theorem exists_ok {x : Except Error α} (hx : LimitedBy P x) (h : ¬P) : ∃ a, x = .ok a := by
  cases x with
  | error e => exact absurd (hx e rfl).2 h
  | ok a => exact ⟨a, rfl⟩

end LimitedBy

namespace Value

/-- Somewhere in the value is an integer, or a text or byte string that spells one, of too many digits. -/
inductive Long : Value → Prop
  | int {n : Int} (h : IntegerText.digitLimit < (Numeral.ofNat n.natAbs).length) : Long (int n)
  | text {s : String} {negative : Bool} {digits : Numeral}
      (hs : Numeral.signed? (Text.trim s.toList) = some (negative, digits))
      (h : IntegerText.digitLimit < digits.length) : Long (text s)
  | bytes {bs : List UInt8} {negative : Bool} {digits : Numeral}
      (hbs : Numeral.signed? (Text.trim (asciiText bs)) = some (negative, digits))
      (h : IntegerText.digitLimit < digits.length) : Long (bytes bs)
  | list {items : List Value} {v : Value} (hv : v ∈ items) (h : Long v) : Long (list items)
  | tuple {items : List Value} {v : Value} (hv : v ∈ items) (h : Long v) : Long (tuple items)
  | stream {items : List Value} {v : Value} (hv : v ∈ items) (h : Long v) : Long (stream items)
  | mapping {entries : List (String × Value)} {e : String × Value} (he : e ∈ entries) (h : Long e.2) :
      Long (mapping entries)
  | object {attributes : List (String × Value)} {e : String × Value} (he : e ∈ attributes) (h : Long e.2) :
      Long (object attributes)

@[simp] theorem not_long_null : ¬null.Long := by rintro ⟨⟩

@[simp] theorem not_long_bool (b : Bool) : ¬(bool b).Long := by rintro ⟨⟩

@[simp] theorem not_long_float (x : Binary64) : ¬(float x).Long := by rintro ⟨⟩

@[simp] theorem long_list {items : List Value} : (list items).Long ↔ ∃ v ∈ items, v.Long := by
  constructor
  · rintro (_ | _ | _ | ⟨hv, h⟩)
    exact ⟨_, hv, h⟩
  · rintro ⟨v, hv, h⟩
    exact .list hv h

@[simp] theorem long_mapping {entries : List (String × Value)} :
    (mapping entries).Long ↔ ∃ e ∈ entries, e.2.Long := by
  constructor
  · rintro (_ | _ | _ | _ | _ | _ | ⟨he, h⟩)
    exact ⟨_, he, h⟩
  · rintro ⟨e, he, h⟩
    exact .mapping he h

theorem long_of_write?_eq_none {n : Int} (h : IntegerText.write? n = none) : (int n).Long := by
  rw [IntegerText.write?_eq] at h
  split at h
  · rename_i hlong
    exact .int hlong
  · cases h

private theorem limitedBy_literal (v : Value) : LimitedBy v.Long v.literal := by
  induction v using literal.induct with
  | case4 n hwrite =>
    -- the one place where a text is refused
    rw [literal, hwrite]
    exact .error rfl (long_of_write?_eq_none hwrite)
  | case8 items ih =>
    rw [literal]
    exact (LimitedBy.mapM fun v _ => (ih v.1 v.2).imp (.list v.2)).bind fun _ _ => .ok _
  | case9 items ih =>
    rw [literal]
    exact (LimitedBy.mapM fun v _ => (ih v.1 v.2).imp (.tuple v.2)).bind fun _ _ => .ok _
  | case10 entries ih =>
    rw [literal]
    refine LimitedBy.bind (LimitedBy.mapM fun e _ => ?_) fun _ _ => .ok _
    exact ((ih e.1 e.2).imp (.mapping e.2)).bind fun _ _ => .ok _
  | case3 n digits hwrite => rw [literal, hwrite]; exact .ok _
  | _ => rw [literal]; exact .ok _

theorem limitedBy_plainText (v : Value) : LimitedBy v.Long v.plainText := by
  unfold plainText
  split
  · exact .ok _
  · exact .ok _
  · exact limitedBy_literal v

end Value

/-! ### Writers -/

namespace Wire

end Wire

namespace Codec.ElementType

/-- The numbers of an enum are within the digit limit. -/
def Writable : ElementType → Prop
  | scalar _ => True
  | enum byName _ _ => ∀ e ∈ byName, (IntegerText.write? e.2).isSome

end Codec.ElementType

namespace Codec

/-- A field that can be written: its enum numbers have a text, and its messages have codecs. -/
structure Field.Writable (cs : Codecs) (f : Field) : Prop where
  element : ∀ type, f.type = .element type → type.Writable
  child : ∀ name, f.type = .message name → ∃ inner, cs.codec? name = some inner

end Codec

namespace Codecs

/-- Every field of the codecs can be written. -/
def Writable (cs : Codecs) : Prop := ∀ c ∈ cs.codecs, ∀ f ∈ c.fields, f.Writable cs

private theorem exists_fieldType {plans : List MessagePlan} {sharing : List FieldPlan}
    (hsharing : ∀ g ∈ sharing, g.Settled plans) {f : FieldPlan} (hf : f ∈ sharing) :
    ∃ type, fieldType sharing f = .ok type ∧ (∀ t, type = .element t → t.Writable) ∧
      ∀ name, type = .message name → ∃ m ∈ plans, m.fullName = name := by
  obtain hkind | hkind | hkind := (hsharing f hf).kind
  · obtain ⟨type, htype⟩ := (hsharing f hf).scalar hkind
    refine ⟨.element (.scalar type), ?_, ?_, by simp⟩
    · rw [fieldType, hkind]
      dsimp only
      rw [htype]
      rfl
    · rintro _ ⟨⟩
      trivial
  · obtain ⟨e, -, he⟩ := (hsharing f hf).enum hkind
    -- the table may be that of another field with the same stem, which is an enum all the same
    obtain ⟨table, htable⟩ : ∃ table, sharing.findSome? FieldPlan.enum = some table := by
      rw [← Option.isSome_iff_exists, List.findSome?_isSome_iff]
      exact ⟨f, hf, by rw [he]; rfl⟩
    obtain ⟨g, hg, hgtable⟩ := List.exists_of_findSome?_eq_some htable
    have hgkind : g.kind = .enum := by
      by_contra hne
      rw [(hsharing g hg).no_enum hne] at hgtable
      cases hgtable
    obtain ⟨e', hbuild, he'⟩ := (hsharing g hg).enum hgkind
    obtain rfl : EnumTable.ofEnum e' = table := Option.some.inj (he'.symm.trans hgtable)
    refine ⟨_, by rw [fieldType, hkind, htable], ?_, by simp⟩
    rintro _ ⟨⟩ entry hentry
    obtain ⟨v, hv, hnumber⟩ := EnumTable.exists_of_mem_numbers hentry
    unfold EnumTable.build at hbuild
    split at hbuild
    · rename_i hall
      exact hnumber ▸ List.all_eq_true.1 hall v hv
    · cases hbuild
  · obtain ⟨m, hm, hchild⟩ := (hsharing f hf).child hkind
    refine ⟨.message m.fullName, by rw [fieldType, hkind, hchild], by simp, ?_⟩
    rintro _ ⟨⟩
    exact ⟨m, hm, rfl⟩

/-- Plans that fit together are made ready, and every field of them can be written. -/
theorem exists_writable (settings : Settings) {plans : List MessagePlan} (hplans : Plan.Closed plans) :
    ∃ cs, ofPlans settings plans = .ok cs ∧ cs.Writable ∧
      ∀ m ∈ plans, ∃ c ∈ cs.codecs, codecOf settings m = .ok c ∧ cs.codec? m.fullName = some c := by
  have hcodec : ∀ m ∈ plans, ∃ c, codecOf settings m = .ok c ∧ c.fullName = m.fullName ∧
      ∀ f ∈ c.fields, (∀ t, f.type = .element t → t.Writable) ∧
        ∀ name, f.type = .message name → ∃ m ∈ plans, m.fullName = name := by
    intro m hm
    have hfield : ∀ f ∈ m.fields, ∃ g, fieldOf settings m f = .ok g ∧ (∀ t, g.type = .element t → t.Writable) ∧
        ∀ name, g.type = .message name → ∃ m ∈ plans, m.fullName = name := by
      intro f hf
      have hsharing : ∀ g ∈ m.withStem (m.stemOf f.number), g.Settled plans := fun g hg =>
        hplans.fields m hm g (List.mem_of_mem_filter (List.mem_reverse.1 hg))
      have hmem : f ∈ m.withStem (m.stemOf f.number) :=
        List.mem_reverse.2 (List.mem_filter.2 ⟨hf, by rw [beq_self_eq_true]⟩)
      obtain ⟨type, htype, hwritable⟩ := exists_fieldType hsharing hmem
      exact ⟨_, by rw [fieldOf, htype]; rfl, hwritable⟩
    obtain ⟨fields, hfields, hwritable⟩ := exists_mapM hfield
    exact ⟨_, by rw [codecOf, hfields]; rfl, rfl, hwritable⟩
  obtain ⟨codecs, hcodecs⟩ := exists_forall₂ hcodec
  have hfullNames : codecs.map Codec.fullName = plans.map MessagePlan.fullName := by
    rw [← List.forall₂_eq_eq_eq, List.forall₂_map_left_iff, List.forall₂_map_right_iff]
    exact hcodecs.flip.imp fun _ _ h => h.2.1
  have hfound : ∀ m ∈ plans, ∃ c ∈ codecs, codecOf settings m = .ok c ∧
      (Codecs.mk codecs settings.fillDefaults).codec? m.fullName = some c := by
    intro m hm
    obtain ⟨c, hc, hready, hname, -⟩ := exists_of_forall₂ hcodecs.flip hm
    refine ⟨c, hc, hready, ?_⟩
    cases hfind : codecs.find? fun c => c.fullName == m.fullName with
    | none =>
      rw [List.find?_eq_none] at hfind
      exact absurd (by rw [hname, beq_self_eq_true]) (hfind c hc)
    | some found =>
      have hsame := List.find?_some hfind
      rw [beq_iff_eq, ← hname] at hsame
      rw [codec?, hfind]
      exact congrArg some (List.inj_on_of_nodup_map (hfullNames ▸ hplans.names)
        (List.mem_of_find?_eq_some hfind) hc hsame)
  refine ⟨⟨codecs, settings.fillDefaults⟩, ?_, fun c hc f hf => ?_, hfound⟩
  · rw [ofPlans, mapM_eq_ok.2 (hcodecs.imp fun _ _ h => h.1), ok_bind]
    rfl
  · obtain ⟨m, hm, -, -, hfields⟩ := exists_of_forall₂ hcodecs hc
    obtain ⟨helement, hchild⟩ := hfields f hf
    refine ⟨helement, fun name htype => ?_⟩
    obtain ⟨m', hm', rfl⟩ := hchild name htype
    obtain ⟨inner, -, -, hinner⟩ := hfound m' hm'
    exact ⟨inner, hinner⟩

end Codecs

/-- What a value is coerced to is in the range of the writers, and they lose nothing of it: words are read
back, and every group of a varint leaves the high bit of its byte free. -/
structure Value.Fits (v : Value) : Prop where
  int32 : ∃ n bs, v.toInt32 = .ok n ∧ IsInt32 n ∧ sfixed32 n = .ok bs ∧ Word.signed32 (Word.ofBytes bs) = n
  uint32 : ∃ n, v.toUInt32 = .ok n ∧ IsUInt32 n ∧ Word.ofBytes (fixed32 n) = n
  unsigned64 : ∃ u, u < 0x10000000000000000 ∧ v.toUnsignedNumeral = .ok (Numeral.ofNat u) ∧
    Word.ofBytes ((Numeral.ofNat u).toBytes 8) = u ∧ ∀ fuel, ∀ g ∈ groups fuel (Numeral.ofNat u), g < 128
  zigzag64 : ∃ u, u < 0x10000000000000000 ∧ v.toZigzag64 = .ok (Numeral.ofNat u) ∧
    ∀ fuel, ∀ g ∈ groups fuel (Numeral.ofNat u), g < 128

end MessageCodec
