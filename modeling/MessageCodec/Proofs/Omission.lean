import MessageCodec.Proofs.Lookup
import MessageCodec.Proofs.Underflow

/-!
# Zeros that are left out

A field without presence is left out where it holds the zero of its type. The test looks at the coerced value and
the payload is made from it afterwards, by writers that may still convert it. The two agree for every type but
singles: a double that is not zero may become zero when it is rounded to a single, and then a record of zeros is
written.
-/

namespace MessageCodec

/-! ### Payloads of zeros -/

namespace Wire

theorem varintOfNat_eq_zero_iff {n : Nat} : varintOfNat n = [0] ↔ n = 0 := by
  constructor
  · intro h
    rw [← groupVal_varintOfNat n, h]
    rfl
  · rintro rfl
    rw [varintOfNat, if_pos (by decide)]
    rfl

theorem delimited_eq_zero_iff {bytes : List UInt8} : delimited bytes = [0] ↔ bytes = [] := by
  constructor
  · intro h
    have hlength := congrArg List.length h
    have hpos : 0 < (varintOfNat bytes.length).length := by
      rw [varintOfNat]
      split <;> simp
    rw [delimited, List.length_append, List.length_singleton] at hlength
    exact List.eq_nil_of_length_eq_zero (by omega)
  · rintro rfl
    rw [delimited, List.append_nil, List.length_nil, varintOfNat_eq_zero_iff]

end Wire

theorem Word.toBytes_eq_zeros_iff {count n : Nat} : toBytes count n = List.replicate count 0 ↔ n % 256 ^ count = 0 := by
  induction count generalizing n with
  | zero => simp [toBytes, Nat.mod_one]
  | succ count ih =>
    have hlow : (n % 256).toUInt8 = 0 ↔ n % 256 = 0 := by
      rw [← UInt8.toNat_inj, toNat_toUInt8 (Nat.mod_lt _ (by decide))]
      rfl
    rw [toBytes, List.replicate_succ, List.cons.injEq, hlow, ih, Nat.pow_succ', Nat.mod_mul]
    omega

/-- What stands for zero on the wire: no bytes with their length in front, the varint zero, or a word of zeros. -/
def ScalarType.zeroPayload (type : ScalarType) : List UInt8 :=
  match type.wireType with
  | .fixed32 => List.replicate 4 0
  | .fixed64 => List.replicate 8 0
  | _ => [0]

namespace Codec.ElementType

open Wire

/-- A payload in one of the four forms, which counts as zero just where its number or block is. -/
inductive Written : WireType → Payload → Prop
  | varint {u : Nat} {isZero : Bool} (hzero : isZero = true ↔ u = 0) : Written .varint ⟨varintOfNat u, isZero⟩
  | block (bytes : List UInt8) : Written .delimited (block bytes)
  | fixed32 {n : Nat} {isZero : Bool} (h : n < 256 ^ 4) (hzero : isZero = true ↔ n = 0) :
      Written .fixed32 ⟨Word.toBytes 4 n, isZero⟩
  | fixed64 {n : Nat} {isZero : Bool} (h : n < 256 ^ 8) (hzero : isZero = true ↔ n = 0) :
      Written .fixed64 ⟨Word.toBytes 8 n, isZero⟩

theorem Written.isZero_iff {type : ScalarType} {p : Payload} (h : Written type.wireType p) :
    p.isZero = true ↔ p.bytes = type.zeroPayload := by
  unfold ScalarType.zeroPayload
  generalize type.wireType = form at h
  cases h with
  | varint hzero => rw [varintOfNat_eq_zero_iff, hzero]
  | block bytes => rw [ElementType.block, delimited_eq_zero_iff, List.isEmpty_iff]
  | fixed32 h hzero => rw [Word.toBytes_eq_zeros_iff, Nat.mod_eq_of_lt h, hzero]
  | fixed64 h hzero => rw [Word.toBytes_eq_zeros_iff, Nat.mod_eq_of_lt h, hzero]

theorem written_number {n : Int} (hlow : -0x80000000 ≤ n) (hhigh : n < 0x100000000) {p : Payload}
    (h : number n = .ok p) : Written .varint p := by
  rw [number_eq (by omega)] at h
  obtain rfl := Except.ok.inj h
  refine .varint ?_
  rw [beq_iff_eq, Word.unsigned64]
  split <;> omega

theorem written_numeral {u : Nat} (hlt : u < 0x10000000000000000) {p : Payload}
    (h : numeral (Numeral.ofNat u) = .ok p) : Written .varint p := by
  rw [numeral_eq hlt] at h
  exact Except.ok.inj h ▸ .varint beq_iff_eq

private theorem written_word {n : Nat} (hlt : n < 0x10000000000000000) {p : Payload}
    (h : word (Numeral.ofNat n) = .ok p) :
    Written .fixed64 p := by
  rw [word_eq hlt] at h
  exact Except.ok.inj h ▸ .fixed64 (by norm_num; omega) beq_iff_eq

theorem isPositiveZero_iff_pattern {x : Binary64} : x.isPositiveZero = true ↔ x.pattern = 0 := by
  rw [Binary64.isPositiveZero, beq_iff_eq, ← UInt64.toNat_inj]
  rfl

/-- Singles apart, the test for zero and the payload are made from the same number or block. -/
theorem written_of_payload {type : ScalarType} (hfloat : type ≠ .float) {v : Value} {p : Payload}
    (h : scalarPayload type v = .ok p) : Written type.wireType p := by
  cases type
  case float => exact absurd rfl hfloat
  case string | bytes =>
    obtain ⟨bytes, -, heq⟩ := bind_eq_ok.1 h
    exact Except.ok.inj heq ▸ .block _
  case bool =>
    obtain rfl := Except.ok.inj h
    cases v.toTruth with
    | false => exact .varint (u := 0) (by simp)
    | true => exact .varint (u := 1) (by simp)
  case int32 =>
    obtain ⟨n, hn, heq⟩ := bind_eq_ok.1 h
    obtain ⟨hlow, hhigh⟩ := Value.isInt32_of_toInt32 hn
    exact written_number hlow (by omega) heq
  case uint32 =>
    obtain ⟨n, hn, heq⟩ := bind_eq_ok.1 h
    obtain ⟨hlow, hhigh⟩ := Value.isUInt32_of_toUInt32 hn
    exact written_number (by omega) hhigh heq
  case sint32 =>
    obtain ⟨n, hn, heq⟩ := bind_eq_ok.1 h
    obtain ⟨hlow, hhigh⟩ := Value.isInt32_of_toInt32 hn
    obtain ⟨hlow', hhigh'⟩ := Word.encodeZigzag32_mem hlow hhigh
    exact written_number (by omega) hhigh' heq
  case int64 | uint64 =>
    obtain ⟨a, ha, heq⟩ := bind_eq_ok.1 h
    obtain ⟨u, hu, rfl⟩ := Value.exists_of_toUnsignedNumeral ha
    exact written_numeral hu heq
  case sint64 =>
    obtain ⟨a, ha, heq⟩ := bind_eq_ok.1 h
    obtain ⟨u, hu, rfl⟩ := Value.exists_of_toZigzag64 ha
    exact written_numeral hu heq
  case fixed64 | sfixed64 =>
    obtain ⟨a, ha, heq⟩ := bind_eq_ok.1 h
    obtain ⟨u, hu, rfl⟩ := Value.exists_of_toUnsignedNumeral ha
    exact written_word hu heq
  case fixed32 =>
    obtain ⟨u, ⟨n, hrange, rfl⟩, hpayload⟩ := exists_decoded_scalar hfloat h
    obtain ⟨hlow, hhigh⟩ := id hrange
    obtain rfl := Except.ok.inj ((settled_fixed32 hrange).payload_eq.symm.trans hpayload)
    exact .fixed32 (by norm_num; omega) (by rw [beq_iff_eq]; omega)
  case sfixed32 =>
    obtain ⟨u, ⟨n, hrange, rfl⟩, hpayload⟩ := exists_decoded_scalar hfloat h
    obtain ⟨hlow, hhigh⟩ := id hrange
    obtain rfl := Except.ok.inj ((settled_sfixed32 hrange).payload_eq.symm.trans hpayload)
    exact .fixed32 (by norm_num; omega) (by rw [beq_iff_eq]; omega)
  case double =>
    obtain rfl := Except.ok.inj h
    exact .fixed64 v.toDouble.bits.toNat_lt isPositiveZero_iff_pattern

/-- The type is single, and the value is a double that is positive but at most half of the least positive single. -/
def Underflows (type : ScalarType) (v : Value) : Prop :=
  type = .float ∧ 0 < v.toDouble.pattern ∧ v.toDouble.pattern ≤ 0x3690000000000000

instance (type : ScalarType) (v : Value) : Decidable (Underflows type v) :=
  inferInstanceAs (Decidable (_ ∧ _ ∧ _))

theorem single_eq_zero_iff (x : Binary64) : single x = ScalarType.zeroPayload .float ↔ x.pattern ≤ 0x3690000000000000 := by
  have hlt : x.toSingle < 256 ^ 4 := x.toSingle_lt
  rw [← Binary64.toSingle_eq_zero_iff, single]
  show Word.toBytes 4 x.toSingle = List.replicate 4 0 ↔ _
  rw [Word.toBytes_eq_zeros_iff, Nat.mod_eq_of_lt hlt]

theorem isZero_iff {type : ScalarType} {v : Value} {p : Payload} (h : scalarPayload type v = .ok p) :
    p.isZero = true ↔ p.bytes = type.zeroPayload ∧ ¬ Underflows type v := by
  by_cases hfloat : type = .float
  · subst hfloat
    obtain rfl := Except.ok.inj h
    have hzero : (Value.float v.toDouble).isPositiveZero = true ↔ _ := isPositiveZero_iff_pattern
    rw [single_eq_zero_iff, hzero, Underflows]
    simp only [true_and]
    omega
  · rw [(written_of_payload hfloat h).isZero_iff, Underflows]
    simp [hfloat]

/-- Where a field holds nothing, what would be written is a zero. -/
theorem exists_payload_null (type : ScalarType) : ∃ p, scalarPayload type .null = .ok p ∧ p.isZero = true := by
  obtain ⟨p, hsettled⟩ := exists_settled_scalar (decoded_zero (.scalar type))
  refine ⟨p, ?_, hsettled.isZero_iff.2 rfl⟩
  rw [← hsettled.payload_eq]
  show scalarPayload type .null = scalarPayload type (zeroScalar type)
  have hnull : Value.null.toSignedNumeral = .ok ['0'] := rfl
  have hint : (Value.int 0).toSignedNumeral = .ok ['0'] := by
    rw [Value.toSignedNumeral_int (by decide), Numeral.ofInt_eq_zero_iff.2 rfl]
  have htext : (Value.text "0").toSignedNumeral = .ok ['0'] := rfl
  cases type
  case string | bytes | bool | float | double => rfl
  all_goals simp only [scalarPayload, zeroScalar, Value.toInt32, Value.toUInt32, Value.toInteger,
    Value.toUnsignedNumeral, Value.toZigzag64, hnull, hint, htext]

end Codec.ElementType

/-! ### Fields without presence -/

namespace Codecs

open Codec Codec.ElementType Wire

/-- A field without presence is written as if it had one, unless its payload is that of zero. -/
theorem encodeField_implicit (cs : Codecs) {f : Field} {type : ScalarType} (htype : f.type = .element (.scalar type))
    (hsingular : f.repeated = false) (himplicit : f.presence = false) {v w : Value}
    (hw : (v.field? f.keys).getD .null = w) :
    cs.encodeField v f = (scalarPayload type w).map fun p =>
      if p.bytes = type.zeroPayload ∧ ¬ Underflows type w then [] else record f.tag p.bytes := by
  rw [encodeField]
  cases hfield : v.field? f.keys with
  | none =>
    rw [hfield, Option.getD_none] at hw
    subst hw
    obtain ⟨p, hp, hzero⟩ := exists_payload_null type
    rw [hp, Except.map, if_pos ((isZero_iff hp).1 hzero)]
    rfl
  | some u =>
    rw [hfield, Option.getD_some] at hw
    subst hw
    rw [encodeHeld, encodeValue, htype]
    dsimp only
    rw [encodeElements, hsingular, if_neg Bool.false_ne_true, payload]
    cases hp : scalarPayload type u with
    | error e => rfl
    | ok p =>
      rw [ok_bind, himplicit, Bool.not_false, Bool.and_true, Except.map]
      simp only [isZero_iff hp]
      rfl

private theorem encodeField_explicit (cs : Codecs) {f : Field} {type : ScalarType}
    (htype : f.type = .element (.scalar type))
    (hsingular : f.repeated = false) {v w : Value} (hw : v.field? f.keys = some w) :
    cs.encodeField v { f with presence := true } = (scalarPayload type w).map fun p => record f.tag p.bytes := by
  obtain ⟨number, held, repeated, packed, presence, keys, outputs, default⟩ := f
  subst htype hsingular
  rw [encodeField, hw, encodeHeld, encodeValue]
  dsimp only
  rw [encodeElements, if_neg Bool.false_ne_true, payload]
  cases scalarPayload type w with
  | error e => rfl
  | ok p =>
    rw [ok_bind, Bool.not_true, Bool.and_false]
    rfl

/-- The bytes of a message, cut at a field. -/
theorem encode_cut {cs : Codecs} {c : Codec} {front back : List Field} {f : Field} (hc : c.fields = front ++ f :: back)
    {v : Value} {bytes : List UInt8} : cs.encode c v = .ok bytes ↔ ∃ before part after kept,
      front.mapM (cs.encodeField v) = .ok before ∧ cs.encodeField v f = .ok part ∧
      back.mapM (cs.encodeField v) = .ok after ∧ unknownOfValue v = .ok kept ∧
      bytes = before.flatten ++ part ++ after.flatten ++ kept := by
  rw [encode_eq, hc, List.mapM_append, List.mapM_cons]
  constructor
  · intro h
    obtain ⟨records, hrecords, hrest⟩ := bind_eq_ok.1 h
    obtain ⟨kept, hkept, heq⟩ := bind_eq_ok.1 hrest
    obtain ⟨before, hbefore, hrecords⟩ := bind_eq_ok.1 hrecords
    obtain ⟨others, hothers, hrecords⟩ := bind_eq_ok.1 hrecords
    obtain ⟨part, hpart, hothers⟩ := bind_eq_ok.1 hothers
    obtain ⟨after, hafter, hothers⟩ := bind_eq_ok.1 hothers
    obtain rfl := Except.ok.inj hothers
    obtain rfl := Except.ok.inj hrecords
    obtain rfl := Except.ok.inj heq
    refine ⟨before, part, after, kept, hbefore, hpart, hafter, hkept, ?_⟩
    simp only [List.flatten_append, List.flatten_cons, List.append_assoc]
  · rintro ⟨before, part, after, kept, hbefore, hpart, hafter, hkept, rfl⟩
    rw [hbefore, hpart, hafter, hkept]
    simp only [ok_bind, pure_bind, List.flatten_append, List.flatten_cons, List.append_assoc]
    rfl

/-- A singular scalar field without presence has a record just where its payload is not that of zero, which is the
payload that it has with presence. The one exception is a single that becomes zero only when it is rounded: its
payload is zero and it has a record. -/
theorem implicit_record_iff {cs : Codecs} {c : Codec} {front back : List Field} {f : Field} {type : ScalarType}
    (hc : c.fields = front ++ f :: back) (htype : f.type = .element (.scalar type)) (hsingular : f.repeated = false)
    (himplicit : f.presence = false) {v w : Value} (hw : (v.field? f.keys).getD .null = w) :
    (∀ bytes, cs.encode c v = .ok bytes ↔ ∃ before p after kept,
      front.mapM (cs.encodeField v) = .ok before ∧ scalarPayload type w = .ok p ∧
      back.mapM (cs.encodeField v) = .ok after ∧ unknownOfValue v = .ok kept ∧
      bytes = before.flatten ++
        (if p.bytes = type.zeroPayload ∧ ¬ Underflows type w then [] else record f.tag p.bytes) ++
        after.flatten ++ kept) ∧
    (v.field? f.keys = some w →
      cs.encodeField v { f with presence := true } = (scalarPayload type w).map fun p => record f.tag p.bytes) ∧
    (Underflows type w → ∃ p, scalarPayload type w = .ok p ∧ p.bytes = type.zeroPayload) := by
  refine ⟨fun bytes => ?_, encodeField_explicit cs htype hsingular, fun hunderflow => ?_⟩
  · rw [encode_cut hc, encodeField_implicit cs htype hsingular himplicit hw]
    cases hp : scalarPayload type w with
    | error e => simp [Except.map]
    | ok p => simp [Except.map]
  · obtain ⟨rfl, -, hle⟩ := hunderflow
    exact ⟨_, rfl, (single_eq_zero_iff _).2 hle⟩

end Codecs

namespace Sample

open Codec Codec.ElementType

def implicitField (name : String) (number : Int) (type : ScalarType) : FieldPlan :=
  { name, number, kind := .scalar, scalar := some type.name }

def gauge : MessagePlan where
  name := "M"
  fullName := "M"
  symbol := "M"
  fields := [implicitField "a" 1 .sint64, implicitField "b" 2 .float]

def gaugeNumber : Field := (implicitField "a" 1 .sint64).ready .snake (.element (.scalar .sint64))

def gaugeSingle : Field := (implicitField "b" 2 .float).ready .snake (.element (.scalar .float))

def gaugeCodec : Codec := ⟨"M", "M", [gaugeNumber, gaugeSingle]⟩

theorem ofPlans_gauge : Codecs.ofPlans {} [gauge] = .ok ⟨[gaugeCodec], true⟩ := rfl

theorem record_gaugeSingle (payload : List UInt8) : record gaugeSingle.tag payload = 21 :: payload :=
  record_small (by decide : 21 < 128) payload

theorem fields_gauge : gaugeCodec.fields = [gaugeNumber] ++ gaugeSingle :: [] := rfl

/-- A zero with a sign. As an integer it is zero and left out, as a single it is not. -/
def signedZeros : Value := .mapping [("a", .text " -0 "), ("b", .float ⟨0x8000000000000000⟩)]

theorem implicit_record_iff_gauge : gaugeCodec.fields = [gaugeNumber] ++ gaugeSingle :: [] ∧
    gaugeSingle.type = .element (.scalar .float) ∧ gaugeSingle.repeated = false ∧ gaugeSingle.presence = false ∧
    (signedZeros.field? gaugeSingle.keys).getD .null = .float ⟨0x8000000000000000⟩ ∧
    Codecs.encode ⟨[gaugeCodec], true⟩ gaugeCodec signedZeros = .ok [21, 0, 0, 0, 128] := by
  have hheld : (signedZeros.field? gaugeSingle.keys).getD .null = .float ⟨0x8000000000000000⟩ := rfl
  have hpayload : scalarPayload .float (.float ⟨0x8000000000000000⟩) = .ok ⟨[0, 0, 0, 128], false⟩ := rfl
  refine ⟨fields_gauge, rfl, rfl, rfl, hheld, ?_⟩
  apply ((Codecs.implicit_record_iff fields_gauge rfl rfl rfl hheld).1 _).2
  refine ⟨[[]], _, [], [], rfl, hpayload, rfl, rfl, ?_⟩
  rw [if_neg (by decide), record_gaugeSingle]
  rfl

def faint : Value := .mapping [("b", .float ⟨0x3690000000000000⟩)]

/-- A double that is rounded to zero is written as a record of zeros. -/
theorem faint_single_written : gaugeSingle ∈ gaugeCodec.fields ∧ gaugeSingle.type = .element (.scalar .float) ∧
    gaugeSingle.repeated = false ∧ gaugeSingle.presence = false ∧
    faint.field? gaugeSingle.keys = some (.float ⟨0x3690000000000000⟩) ∧
    scalarPayload .float (.float ⟨0x3690000000000000⟩) = .ok ⟨ScalarType.zeroPayload .float, false⟩ ∧
    Codecs.ofPlans {} [gauge] = .ok ⟨[gaugeCodec], true⟩ ∧
    Codecs.encode ⟨[gaugeCodec], true⟩ gaugeCodec faint = .ok [21, 0, 0, 0, 0] := by
  have hpayload : scalarPayload .float (.float ⟨0x3690000000000000⟩) = .ok ⟨ScalarType.zeroPayload .float, false⟩ := by
    rw [← (single_eq_zero_iff ⟨0x3690000000000000⟩).2 (by decide)]
    rfl
  have hpart : Codecs.encodeField ⟨[gaugeCodec], true⟩ faint gaugeSingle = .ok [21, 0, 0, 0, 0] := by
    have hheld : (faint.field? gaugeSingle.keys).getD .null = .float ⟨0x3690000000000000⟩ := rfl
    rw [Codecs.encodeField_implicit _ rfl rfl rfl hheld, hpayload, Except.map, if_neg (by decide), record_gaugeSingle]
    rfl
  refine ⟨List.mem_cons_of_mem _ List.mem_cons_self, rfl, rfl, rfl, rfl, hpayload, ofPlans_gauge, ?_⟩
  exact (Codecs.encode_cut fields_gauge).2 ⟨[[]], _, [], [], rfl, hpart, rfl, rfl, rfl⟩

end Sample

end MessageCodec
