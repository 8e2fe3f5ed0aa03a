import MessageCodec.Proofs.Closure
import MessageCodec.Proofs.EnumTable

/-!
# Statements on fields of closed plans

Every statement that belongs to a field of closed plans can be written: its type is known, the message
it holds has a symbol, and its numbers have digits. None of them has a line break inside, as long as the
names that are written as they are have none.
-/

namespace MessageCodec

/-- A field whose number and tags are within the digit limit. -/
structure FieldPlan.Numbered (f : FieldPlan) : Prop where
  number : (IntegerText.write? f.number).isSome
  tags : ∀ type, (IntegerText.write? (tagOf f.number type)).isSome

theorem FieldPlan.numbered_of_isInt32 {f : FieldPlan} (h : IsInt32 f.number) : f.Numbered := by
  obtain ⟨hlow, hhigh⟩ := h
  constructor
  · rw [IntegerText.write?_of_lt (by omega)]
    rfl
  · intro type
    have hcode : type.code ≤ 5 := by cases type <;> decide
    rw [tagOf, IntegerText.write?_of_lt (by omega)]
    rfl

structure FieldPlan.Plain (f : FieldPlan) : Prop where
  name : OneLine f.name
  child : ∀ s ∈ f.child, OneLine s
  enum : ∀ t ∈ f.enum, OneLine t.fullName

namespace Source

/-! ### Elements -/

structure ElementSource.Unbroken (s : ElementSource) : Prop where
  coerce : ∀ v, OneLine v → OneLine (s.coerce v)
  nonDefault : ∀ v, OneLine v → OneLine (s.nonDefault v)
  writer : OneLine s.writer
  reader : OneLine s.reader
  convert : ∀ g ∈ s.convert, ∀ v, OneLine v → OneLine (g v)

theorem oneLine_call {function : String} (hfunction : OneLine function) (v : String) (hv : OneLine v) :
    OneLine (call function v) := by
  simp only [call, oneLine_append, hfunction, hv, true_and, and_true]
  exact ⟨oneLine_literal rfl, oneLine_literal rfl⟩

theorem convert_call {function : String} (h : OneLine function) :
    ∀ g ∈ some (call function), ∀ v, OneLine v → OneLine (g v) := by
  rintro _ ⟨⟩
  exact oneLine_call h

private theorem unbroken_varint32 {coerce : String → String} (hcoerce : ∀ v, OneLine v → OneLine (coerce v))
    {convert : String} (hconvert : OneLine convert) : (varint32 coerce convert).Unbroken where
  coerce := hcoerce
  nonDefault _ hv := oneLine_append.2 ⟨hv, oneLine_literal rfl⟩
  writer := oneLine_literal rfl
  reader := oneLine_literal rfl
  convert := convert_call hconvert

private theorem unbroken_numeral {coerce writer reader : String} (hcoerce : OneLine coerce) (hwriter : OneLine writer)
    (hreader : OneLine reader) {convert : Option (String → String)}
    (hconvert : ∀ g ∈ convert, ∀ v, OneLine v → OneLine (g v)) :
    (numeral coerce writer reader convert).Unbroken where
  coerce := oneLine_call hcoerce
  nonDefault _ hv := oneLine_append.2 ⟨hv, oneLine_literal rfl⟩
  writer := hwriter
  reader := hreader
  convert := hconvert

private theorem unbroken_ofScalar (type : ScalarType) : (ofScalar type).Unbroken := by
  have hnone : ∀ g ∈ (none : Option (String → String)), ∀ v, OneLine v → OneLine (g v) := by simp
  have hzero (v : String) (hv : OneLine v) : OneLine (v ++ " != 0") := oneLine_append.2 ⟨hv, oneLine_literal rfl⟩
  have hfloat (v : String) (hv : OneLine v) : OneLine ("not " ++ call "_pb.is_positive_zero" v) :=
    oneLine_append.2 ⟨oneLine_literal rfl, oneLine_call (oneLine_literal rfl) v hv⟩
  cases type with
  | string =>
    refine ⟨fun v hv => ?_, fun _ hv => hv, oneLine_literal rfl, oneLine_literal rfl, hnone⟩
    exact oneLine_append.2 ⟨oneLine_call (oneLine_literal rfl) v hv, oneLine_literal rfl⟩
  | bytes =>
    exact ⟨oneLine_call (oneLine_literal rfl), fun _ hv => hv, oneLine_literal rfl, oneLine_literal rfl, hnone⟩
  | bool =>
    refine ⟨fun v hv => ?_, fun _ hv => hv, oneLine_literal rfl, oneLine_literal rfl, ?_⟩
    · have hcall : OneLine (call "_pb.coerce_bool" v) := oneLine_call (oneLine_literal rfl) v hv
      exact oneLine_append.2 ⟨oneLine_append.2 ⟨oneLine_literal rfl, hcall⟩, oneLine_literal rfl⟩
    · rintro _ ⟨⟩ v hv
      exact oneLine_append.2 ⟨hv, oneLine_literal rfl⟩
  | int32 | uint32 => exact unbroken_varint32 (oneLine_call (oneLine_literal rfl)) (oneLine_literal rfl)
  | sint32 =>
    refine unbroken_varint32 (fun v hv => ?_) (oneLine_literal rfl)
    exact oneLine_call (oneLine_literal rfl) _ (oneLine_call (oneLine_literal rfl) v hv)
  | int64 | sint64 =>
    exact unbroken_numeral (oneLine_literal rfl) (oneLine_literal rfl) (oneLine_literal rfl)
      (convert_call (oneLine_literal rfl))
  | uint64 | fixed64 | sfixed64 =>
    exact unbroken_numeral (oneLine_literal rfl) (oneLine_literal rfl) (oneLine_literal rfl) hnone
  | fixed32 | sfixed32 =>
    exact ⟨oneLine_call (oneLine_literal rfl), hzero, oneLine_literal rfl, oneLine_literal rfl, hnone⟩
  | float | double =>
    exact ⟨oneLine_call (oneLine_literal rfl), hfloat, oneLine_literal rfl, oneLine_literal rfl, hnone⟩

private theorem unbroken_ofEnum {stem : String} (h : OneLine stem) : (ofEnum stem).Unbroken where
  coerce v hv := by
    show OneLine ("_pb.coerce_enum(" ++ v ++ ", _ENUM_" ++ stem ++ "_BY_NAME)")
    simp only [oneLine_append, h, hv, and_true]
    and_intros <;> exact oneLine_literal rfl
  nonDefault _ hv := oneLine_append.2 ⟨hv, oneLine_literal rfl⟩
  writer := oneLine_literal rfl
  reader := oneLine_literal rfl
  convert := by
    rintro _ ⟨⟩ v hv
    simp only [oneLine_append, h, hv, and_true]
    and_intros <;> exact oneLine_literal rfl

variable {plans : List MessagePlan} {f : FieldPlan}

theorem ofField_ok (hf : f.Settled plans) (hkind : f.kind ≠ .message) {stem : String} (hstem : OneLine stem) :
    ∃ s, ofField stem f = .ok s ∧ s.Unbroken := by
  rcases hf.kind with hscalar | henum | hmessage
  · obtain ⟨type, htype⟩ := hf.scalar hscalar
    refine ⟨ofScalar type, ?_, unbroken_ofScalar type⟩
    simp [ofField, hscalar, htype, Except.map]
  · exact ⟨ofEnum stem, by simp [ofField, henum], unbroken_ofEnum hstem⟩
  · exact absurd hmessage hkind

/-! ### Tags -/

theorem schemaNumber_ok {n : Int} (h : (IntegerText.write? n).isSome) :
    ∃ s, schemaNumber n = .ok s ∧ OneLine s := by
  obtain ⟨digits, hdigits⟩ := Option.isSome_iff_exists.1 h
  refine ⟨String.ofList digits, by simp only [schemaNumber, hdigits], ?_⟩
  rw [oneLine_ofList, IntegerText.write?_some hdigits]
  exact Numeral.unbroken_ofInt n

theorem wireType_ok (hf : f.Settled plans) : ∃ type, f.wireType = .ok type := by
  rcases hf.kind with hscalar | henum | hmessage
  · obtain ⟨type, htype⟩ := hf.scalar hscalar
    exact ⟨type.wireType, by simp [FieldPlan.wireType, hscalar, htype, Except.map]⟩
  · exact ⟨.varint, by simp [FieldPlan.wireType, henum]⟩
  · exact ⟨.delimited, by simp [FieldPlan.wireType, hmessage]⟩

theorem tag_ok (hf : f.Settled plans) : ∃ type, f.tag = .ok (FieldPlan.tagOf f.number type) := by
  obtain ⟨type, htype⟩ := wireType_ok hf
  exact ⟨type, by rw [FieldPlan.tag, htype]; rfl⟩

theorem oneLines_indent {level : Nat} {ls : List String} (h : OneLines ls) : OneLines (indent level ls) := by
  intro l hl
  obtain ⟨l', hl', rfl⟩ := List.mem_map.1 hl
  split
  · exact h l' hl'
  · rw [oneLine_append, oneLine_ofList]
    refine ⟨?_, h l' hl'⟩
    intro c hc
    rw [List.eq_of_mem_replicate hc]
    decide

namespace Emitter

theorem writeTag_ok {tag : Int} (h : (IntegerText.write? tag).isSome) :
    ∃ s, writeTag tag = .ok s ∧ OneLine s := by
  obtain ⟨digits, hdigits, hline⟩ := schemaNumber_ok h
  refine ⟨_, by rw [writeTag, hdigits, ok_bind]; rfl, ?_⟩
  simp only [oneLine_append, hline, and_true]
  exact ⟨oneLine_literal rfl, oneLine_literal rfl⟩

theorem armLine_ok {keyword : String} (hkeyword : OneLine keyword) {number : Int}
    (h : (IntegerText.write? number).isSome) (type : Wire.WireType) :
    ∃ s, armLine keyword number type = .ok s ∧ OneLine s := by
  obtain ⟨digits, hdigits, hline⟩ := schemaNumber_ok h
  refine ⟨_, by rw [armLine, hdigits, ok_bind]; rfl, ?_⟩
  simp only [oneLine_append, hkeyword, hline, oneLine_decimal, and_true, true_and]
  and_intros <;> exact oneLine_literal rfl

/-! ### Children -/

/-- An emitter that knows the symbols of plans. -/
def Knows (e : Emitter) (plans : List MessagePlan) : Prop := ∀ m ∈ plans, e.symbols.get? m.fullName = some m.symbol

structure Plain (e : Emitter) : Prop where
  runtime : OneLine e.settings.runtimeModule
  name : OneLine e.message.name
  fullName : OneLine e.message.fullName
  symbol : OneLine e.message.symbol
  fileName : ∀ s ∈ e.message.fileName, OneLine s
  symbols : ∀ entry ∈ e.symbols, OneLine entry.2
  fields : ∀ f ∈ e.message.fields, f.Plain

/-- Lines that can be written, none of which has a break unless a name has. -/
def Emits (e : Emitter) (x : Except Error (List String)) : Prop := ∃ ls, x = .ok ls ∧ (e.Plain → OneLines ls)

variable {e : Emitter}

theorem childSymbol_ok (he : e.Knows plans) (hf : f.Settled plans) (hkind : f.kind = .message) :
    ∃ m ∈ plans, f.child = some m.fullName ∧ e.childSymbol f = .ok m.symbol := by
  obtain ⟨m, hm, hchild⟩ := hf.child hkind
  refine ⟨m, hm, hchild, ?_⟩
  rw [childSymbol, hchild, Option.bind_some, he m hm]

theorem childFunction_ok (he : e.Knows plans) (hf : f.Settled plans) (hkind : f.kind = .message) {suffix : String}
    (hsuffix : OneLine suffix) : ∃ s, e.childFunction f suffix = .ok s ∧ (e.Plain → OneLine s) := by
  obtain ⟨m, hm, -, hsymbol⟩ := childSymbol_ok he hf hkind
  refine ⟨_, by rw [childFunction, hsymbol, ok_bind]; rfl, fun hplain => ?_⟩
  have hline : OneLine m.symbol := hplain.symbols _ (Table.mem_of_get? (he m hm))
  split
  · exact oneLine_append.2 ⟨hline, hsuffix⟩
  · simp only [oneLine_append, hline, hsuffix, and_true]
    exact ⟨oneLine_literal rfl, oneLine_literal rfl⟩

theorem writeMessage_ok (he : e.Knows plans) (hf : f.Settled plans) (hkind : f.kind = .message) {expression : String}
    (hexpression : OneLine expression) : ∃ s, e.writeMessage f expression = .ok s ∧ (e.Plain → OneLine s) := by
  obtain ⟨encode, hencode, hline⟩ := childFunction_ok he hf hkind (show OneLine "Encode" from oneLine_literal rfl)
  refine ⟨_, by rw [writeMessage, hencode, ok_bind]; rfl, fun hplain => ?_⟩
  simp only [oneLine_append, hline hplain, hexpression, and_true]
  and_intros <;> exact oneLine_literal rfl

/-! ### Encoding -/

theorem oneLine_constants (e : Emitter) (f : FieldPlan) : OneLine (e.stem f) := oneLine_stemOf _ _

theorem emits_encodeSingle (he : e.Knows plans) (hf : f.Settled plans) (hn : f.Numbered) :
    e.Emits (e.encodeSingle f) := by
  obtain ⟨type, htag⟩ := tag_ok hf
  obtain ⟨write, hwrite, hwriteLine⟩ := writeTag_ok (hn.tags type)
  rw [encodeSingle]
  split
  · rename_i hkind
    obtain ⟨body, hbody, hbodyLine⟩ := writeMessage_ok he hf hkind (show OneLine "value" from oneLine_literal rfl)
    refine ⟨[write, body], by rw [htag, ok_bind, hwrite, ok_bind, hbody]; rfl, fun hplain => ?_⟩
    simp only [oneLines_cons, oneLines_nil, hwriteLine, hbodyLine hplain, and_self]
  · rename_i hkind
    obtain ⟨source, hsource, hunbroken⟩ := ofField_ok hf hkind (oneLine_constants e f)
    refine ⟨_, by rw [hsource, ok_bind, htag, ok_bind, hwrite, ok_bind]; rfl, fun _ => ?_⟩
    have hcoerced := hunbroken.coerce "value" (oneLine_literal rfl)
    have hdefault := hunbroken.nonDefault "value" (oneLine_literal rfl)
    have hbody : OneLines [write, source.writer ++ "(out, value)"] := by
      simp only [oneLines_cons, oneLines_nil, oneLine_append, hwriteLine, hunbroken.writer, true_and, and_true]
      exact oneLine_literal rfl
    split
    · rw [oneLines_cons, oneLine_append]
      exact ⟨⟨oneLine_literal rfl, hcoerced⟩, hbody⟩
    · simp only [oneLines_cons, oneLine_append, hcoerced, hdefault, oneLines_indent hbody, and_true]
      and_intros <;> exact oneLine_literal rfl

theorem emits_encodeUnpacked (he : e.Knows plans) (hf : f.Settled plans) (hn : f.Numbered) :
    e.Emits (e.encodeUnpacked f) := by
  obtain ⟨type, htag⟩ := tag_ok hf
  obtain ⟨write, hwrite, hwriteLine⟩ := writeTag_ok (hn.tags type)
  rw [encodeUnpacked]
  split
  · rename_i hkind
    obtain ⟨body, hbody, hbodyLine⟩ := writeMessage_ok he hf hkind (show OneLine "item" from oneLine_literal rfl)
    refine ⟨_, by rw [htag, ok_bind, hwrite, ok_bind, hbody]; rfl, fun hplain => ?_⟩
    rw [oneLines_cons]
    refine ⟨oneLine_literal rfl, oneLines_indent ?_⟩
    simp only [oneLines_cons, oneLines_nil, hwriteLine, hbodyLine hplain, and_true]
    exact ⟨oneLine_literal rfl, oneLine_literal rfl⟩
  · rename_i hkind
    obtain ⟨source, hsource, hunbroken⟩ := ofField_ok hf hkind (oneLine_constants e f)
    refine ⟨_, by rw [hsource, ok_bind, htag, ok_bind, hwrite, ok_bind]; rfl, fun _ => ?_⟩
    rw [oneLines_cons]
    refine ⟨oneLine_literal rfl, oneLines_indent ?_⟩
    simp only [oneLines_cons, oneLines_nil, oneLine_append, hwriteLine, hunbroken.writer,
      hunbroken.coerce "item" (oneLine_literal rfl), and_true, true_and]
    exact ⟨oneLine_literal rfl, oneLine_literal rfl⟩

theorem emits_encodePacked (hf : f.Settled plans) (hn : f.Numbered) (hkind : f.kind ≠ .message) :
    e.Emits (e.encodePacked f) := by
  obtain ⟨write, hwrite, hwriteLine⟩ := writeTag_ok (hn.tags .delimited)
  obtain ⟨source, hsource, hunbroken⟩ := ofField_ok hf hkind (oneLine_constants e f)
  rw [encodePacked]
  refine ⟨_, by rw [hsource, ok_bind, FieldPlan.packedTag, hwrite, ok_bind]; rfl, fun _ => ?_⟩
  simp only [oneLines_cons, oneLines_nil, oneLine_append, hwriteLine, hunbroken.writer,
    hunbroken.coerce "item" (oneLine_literal rfl), and_true]
  and_intros <;> exact oneLine_literal rfl

private theorem oneLine_of_scalarOf {name : Option String} {type : ScalarType}
    (h : FieldPlan.scalarOf name = .ok type) :
    OneLine (name.getD "None") := by
  rw [FieldPlan.scalarOf] at h
  split at h
  · rename_i found hfound
    obtain ⟨s, rfl, hs⟩ := Option.bind_eq_some_iff.1 hfound
    have hname : found.name = s := by simpa using List.find?_some hs
    rw [Option.getD_some, ← hname]
    cases found <;> exact oneLine_literal rfl
  · cases h

private theorem typeName_ok (hf : f.Settled plans) : ∃ s, typeName f = .ok s ∧ (f.Plain → OneLine s) := by
  rcases hf.kind with hscalar | henum | hmessage
  · obtain ⟨type, htype⟩ := hf.scalar hscalar
    exact ⟨_, by rw [typeName, hscalar], fun _ => oneLine_of_scalarOf htype⟩
  · obtain ⟨t, -, ht⟩ := hf.enum henum
    exact ⟨_, by rw [typeName, henum, ht], fun hplain => hplain.enum _ ht⟩
  · obtain ⟨m, -, hchild⟩ := hf.child hmessage
    exact ⟨_, by rw [typeName, hmessage, hchild]; rfl, fun hplain => hplain.child _ hchild⟩

theorem describe_ok (hf : f.Settled plans) : ∃ s, describe f = .ok s ∧ (f.Plain → OneLine s) := by
  obtain ⟨kind, hkind, hline⟩ := typeName_ok hf
  refine ⟨_, by rw [describe, hkind, ok_bind]; rfl, fun hplain => ?_⟩
  split
  · split
    all_goals
      simp only [oneLine_append, hline hplain, and_true]
      and_intros <;> exact oneLine_literal rfl
  · exact hline hplain

theorem kind_of_packable (h : f.isPackable = true) : f.kind ≠ .message := by
  intro hkind
  rw [FieldPlan.isPackable, hkind] at h
  cases h

theorem emits_encodeLines (he : e.Knows plans) (hmem : f ∈ e.message.fields) (hf : f.Settled plans)
    (hn : f.Numbered) : e.Emits (e.encodeLines f) := by
  obtain ⟨number, hnumber, hnumberLine⟩ := schemaNumber_ok hn.number
  obtain ⟨text, htext, htextLine⟩ := describe_ok hf
  let head := ["# " ++ number ++ ": " ++ f.name ++ " (" ++ text ++ ")",
    "value = _pb.resolve_field_value(_KEYS_" ++ e.stem f ++ ", message)", "if value is not None:"]
  have hhead : e.Plain → OneLines head := by
    intro hplain
    have hname := (hplain.fields f hmem).name
    have htextLine := htextLine (hplain.fields f hmem)
    simp only [head, oneLines_cons, oneLines_nil, oneLine_append, hnumberLine, hname, htextLine, oneLine_constants,
      and_true]
    and_intros <;> exact oneLine_literal rfl
  have hbody {x : Except Error (List String)} (hx : e.Emits x) :
      e.Emits (x >>= fun body => pure (head ++ indent 1 body)) := by
    obtain ⟨body, rfl, hlines⟩ := hx
    exact ⟨_, rfl, fun hplain => oneLines_append.2 ⟨hhead hplain, oneLines_indent (hlines hplain)⟩⟩
  rw [encodeLines, hnumber, ok_bind, htext, ok_bind]
  split
  · rename_i hpacked
    rw [Bool.and_eq_true] at hpacked
    exact hbody (emits_encodePacked hf hn (kind_of_packable (hf.packed hpacked.2).2))
  split
  · exact hbody (emits_encodeUnpacked he hf hn)
  · exact hbody (emits_encodeSingle he hf hn)

/-! ### Decoding -/

theorem emits_decodeSingle (he : e.Knows plans) (hf : f.Settled plans) : e.Emits (e.decodeSingle f) := by
  have hstore {reader converted : String} (hreader : OneLine reader) (hconverted : e.Plain → OneLine converted) :
      e.Plain → OneLines ["raw, cursor = " ++ reader ++ "(data, cursor)", "if raw is None:", "    break",
        if f.repeated then "_pb.append_field_value(_OUT_" ++ e.stem f ++ ", message, [" ++ converted ++ "])"
        else "_pb.assign_field_value(_OUT_" ++ e.stem f ++ ", message, " ++ converted ++ ")"] := by
    intro hplain
    have hconverted := hconverted hplain
    split
    all_goals
      simp only [oneLines_cons, oneLines_nil, oneLine_append, hreader, hconverted, oneLine_constants, and_true]
      and_intros <;> exact oneLine_literal rfl
  rw [decodeSingle]
  split
  · rename_i hkind
    obtain ⟨decode, hdecode, hline⟩ := childFunction_ok he hf hkind (show OneLine "Decode" from oneLine_literal rfl)
    refine ⟨_, by rw [hdecode, ok_bind]; rfl, hstore (oneLine_literal rfl) fun hplain => ?_⟩
    exact oneLine_append.2 ⟨hline hplain, oneLine_literal rfl⟩
  · rename_i hkind
    obtain ⟨source, hsource, hunbroken⟩ := ofField_ok hf hkind (oneLine_constants e f)
    refine ⟨_, by rw [hsource, ok_bind]; rfl, hstore hunbroken.reader fun _ => ?_⟩
    cases hconvert : source.convert with
    | none => exact oneLine_literal rfl
    | some g => exact hunbroken.convert g hconvert _ (oneLine_literal rfl)

private theorem oneLine_packedValues {source : ElementSource} (h : source.Unbroken) :
    OneLine (packedValues source) := by
  have hvalues : OneLine ("_pb.read_packed(payload, " ++ source.reader ++ ")") := by
    simp only [oneLine_append, h.reader, and_true]
    exact ⟨oneLine_literal rfl, oneLine_literal rfl⟩
  rw [packedValues]
  split
  · exact hvalues
  · rename_i g hg
    have hraw := h.convert g hg "raw" (oneLine_literal rfl)
    rw [oneLine_append, oneLine_append, oneLine_append, oneLine_append]
    exact ⟨⟨⟨⟨oneLine_literal rfl, hraw⟩, oneLine_literal rfl⟩, hvalues⟩, oneLine_literal rfl⟩

theorem emits_decodePacked (hf : f.Settled plans) (hkind : f.kind ≠ .message) : e.Emits (e.decodePacked f) := by
  obtain ⟨source, hsource, hunbroken⟩ := ofField_ok hf hkind (oneLine_constants e f)
  rw [decodePacked, hsource, ok_bind]
  refine ⟨_, rfl, fun _ => ?_⟩
  simp only [oneLines_cons, oneLines_nil, oneLine_append, oneLine_packedValues hunbroken, oneLine_constants, and_true]
  and_intros <;> exact oneLine_literal rfl

private theorem emits_packedArm (hf : f.Settled plans) (hn : f.Numbered) {keyword : String}
    (hkeyword : OneLine keyword) :
    e.Emits (e.packedArm f keyword) := by
  rw [packedArm]
  split
  · rename_i hpackable
    rw [Bool.and_eq_true] at hpackable
    obtain ⟨arm, harm, harmLine⟩ := armLine_ok hkeyword hn.number .delimited
    obtain ⟨body, hbody, hlines⟩ := emits_decodePacked (e := e) hf (kind_of_packable hpackable.2)
    refine ⟨_, by rw [harm, ok_bind, hbody, ok_bind]; rfl, fun hplain => ?_⟩
    exact oneLines_cons.2 ⟨harmLine, oneLines_indent (hlines hplain)⟩
  · exact ⟨[], rfl, fun _ => oneLines_nil⟩

theorem emits_decodeLines (he : e.Knows plans) (hf : f.Settled plans) (hn : f.Numbered) (first : Bool) :
    e.Emits (e.decodeLines f first) := by
  have hopening : OneLine (if first then "if" else "elif") := by split <;> exact oneLine_literal rfl
  obtain ⟨type, htype⟩ := wireType_ok hf
  obtain ⟨packed, hpacked, hpackedLines⟩ := emits_packedArm (e := e) hf hn hopening
  obtain ⟨single, hsingle, hsingleLines⟩ := emits_decodeSingle he hf
  have hkeyword : OneLine (if packed.isEmpty then if first then "if" else "elif" else "elif") := by
    split
    · exact hopening
    · exact oneLine_literal rfl
  obtain ⟨arm, harm, harmLine⟩ := armLine_ok hkeyword hn.number type
  rw [decodeLines, hpacked, ok_bind]
  refine ⟨_, by rw [htype, ok_bind, harm, ok_bind, hsingle, ok_bind]; rfl, fun hplain => ?_⟩
  rw [oneLines_append, oneLines_cons]
  exact ⟨hpackedLines hplain, harmLine, oneLines_indent (hsingleLines hplain)⟩

/-! ### Defaults and constants -/

theorem emits_defaultLines (hf : f.Settled plans) : e.Emits (e.defaultLines f) := by
  rw [defaultLines]
  split
  · exact ⟨[], rfl, fun _ => oneLines_nil⟩
  · have hprintable : (if f.repeated then Value.list [] else f.default).Printable := by
      split
      · exact .list (by simp)
      · exact hf.default
    obtain ⟨text, htext, hline⟩ := hprintable.sourceLiteral
    refine ⟨_, by rw [htext, ok_bind]; rfl, fun _ => ?_⟩
    simp only [oneLines_cons, oneLines_nil, oneLine_append, hline, oneLine_constants, and_true]
    and_intros <;> exact oneLine_literal rfl

theorem keysLiteral_ok (keys : List String) : ∃ s, keysLiteral keys = .ok s ∧ OneLine s := by
  apply Value.Printable.sourceLiteral
  apply Value.Printable.tuple
  intro v hv
  obtain ⟨key, -, rfl⟩ := List.mem_map.1 hv
  exact .text key

theorem printable_byName {t : Schema.Enum} (h : EnumTable.build t = .ok (EnumTable.ofEnum t)) :
    (Value.mapping ((EnumTable.ofEnum t).byName.map fun (p : String × Int) => (p.1, .int p.2))).Printable := by
  obtain ⟨hall, -⟩ := EnumTable.build_eq_ok_iff.1 h
  apply Value.Printable.mapping
  intro entry hentry
  obtain ⟨p, hp, rfl⟩ := List.mem_map.1 hentry
  obtain ⟨v, hv, hnumber⟩ := EnumTable.exists_of_mem_numbers hp
  exact .int (hnumber ▸ hall v hv)

theorem printable_byNumber (t : EnumTable) :
    (Value.mapping (t.byNumber.map fun (p : String × String) => (p.1, .text p.2))).Printable := by
  apply Value.Printable.mapping
  intro entry hentry
  obtain ⟨p, -, rfl⟩ := List.mem_map.1 hentry
  exact .text _

private theorem printable_defaultName (t : EnumTable) : ((t.defaultName.map Value.text).getD .null).Printable := by
  cases t.defaultName with
  | none => exact .null
  | some name => exact .text name

/-- A line that imports no module of a message. -/
def Foreign (l : String) : Prop := ¬ "from . ".toList <+: l.toList

theorem constantLines_ok (e : Emitter) (hf : f.Settled plans) :
    ∃ ls, e.constantLines f = .ok ls ∧ OneLines ls ∧ ∀ l ∈ ls, Foreign l := by
  obtain ⟨keys, hkeys, hkeysLine⟩ := keysLiteral_ok f.lookupKeys
  obtain ⟨out, hout, houtLine⟩ := keysLiteral_ok (e.outputKeys f)
  rw [constantLines, hkeys, ok_bind, hout, ok_bind]
  by_cases hkind : f.kind = .enum
  · obtain ⟨t, hbuild, ht⟩ := hf.enum hkind
    obtain ⟨byName, hbyName, hbyNameLine⟩ := (printable_byName hbuild).sourceLiteral
    obtain ⟨byNumber, hbyNumber, hbyNumberLine⟩ := (printable_byNumber (EnumTable.ofEnum t)).sourceLiteral
    obtain ⟨zero, hzero, hzeroLine⟩ := (printable_defaultName (EnumTable.ofEnum t)).sourceLiteral
    rw [ht]
    dsimp only
    refine ⟨_, by rw [hbyName, ok_bind, hbyNumber, ok_bind, hzero, ok_bind]; rfl, ?_, by simp [Foreign]⟩
    simp only [oneLines_cons, oneLines_nil, oneLine_append, hkeysLine, houtLine, hbyNameLine, hbyNumberLine,
      hzeroLine, oneLine_constants, and_true]
    and_intros <;> exact oneLine_literal rfl
  · rw [hf.no_enum hkind]
    refine ⟨_, rfl, ?_, by simp [Foreign]⟩
    simp only [oneLines_cons, oneLines_nil, oneLine_append, hkeysLine, houtLine, oneLine_constants, and_true]
    and_intros <;> exact oneLine_literal rfl

end Emitter

end Source

end MessageCodec
