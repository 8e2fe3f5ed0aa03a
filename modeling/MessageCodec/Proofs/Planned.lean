import MessageCodec.Proofs.Closure
import MessageCodec.Proofs.Plan

/-!
# What is planned is well-formed

A planner copies what a file says about a field and works out the rest: the type, the presence and the default.
Where no field without presence declares a default, and the values of enums have names that can be told apart,
the default that is worked out is the zero of the type. Plans of such files are well-formed as soon as numbers,
stems and keys tell their fields apart.
-/

namespace MessageCodec

open Schema Planning

namespace Plan

/-! ### Where messages come from -/

theorem mem_of_mem_firstOfName {seen : List String} {places : List Place} {p : Place}
    (h : p ∈ firstOfName seen places) : p ∈ places := by
  induction places generalizing seen with
  | nil => exact h
  | cons place places ih =>
    rw [firstOfName] at h
    split at h
    · exact List.mem_cons_of_mem _ (ih h)
    · rcases List.mem_cons.1 h with rfl | hrest
      · exact List.mem_cons_self
      · exact List.mem_cons_of_mem _ (ih hrest)

theorem Pulls.mem {places : List Place} {seen : List String} {pulled : List Place} (h : Pulls places seen pulled)
    {p : Place} (hp : p ∈ pulled) : p ∈ places := by
  induction h with
  | done => cases hp
  | place hfound _ _ ih =>
    rcases List.mem_cons.1 hp with rfl | hmore
    · exact List.mem_of_find?_eq_some hfound
    · exact List.mem_of_mem_filter (ih hmore)

theorem exists_file_of_mem_collect {targets others : List File} {places : List Place}
    (h : collect targets others = .ok places) {p : Place} (hp : p ∈ places) :
    ∃ file ∈ targets ++ others, p ∈ placesOf file := by
  obtain ⟨pulled, hpulled, heq⟩ := bind_eq_ok.1 h
  rw [← Except.ok.inj heq] at hp
  rcases List.mem_append.1 hp with hown | hmore
  · obtain ⟨file, hfile, hplace⟩ := List.mem_flatMap.1 (mem_of_mem_firstOfName hown)
    exact ⟨file, List.mem_append_left _ hfile, hplace⟩
  · exact List.mem_flatMap.1 ((pulls_of_pull hpulled).mem hmore)

/-! ### Defaults -/

theorem scalarDefault_empty (unescape : Unescaping) (type : ScalarType) :
    scalarDefault unescape type "" = .ok (Codec.ElementType.zeroScalar type) := by
  cases type <;> rfl

theorem enumDefault_empty {dialect : Dialect} (h : dialect ≠ .proto2) (e : Enum) :
    enumDefault dialect e "" = Value.ofEnumNumber (EnumTable.ofEnum e).byNumber (EnumTable.ofEnum e).defaultName 0 := by
  have hname : (EnumTable.ofEnum e).defaultName =
      Table.get? (EnumTable.ofEnum e).byNumber (String.ofList (Numeral.ofInt 0)) := by
    rw [EnumTable.defaultName, Numeral.ofInt_eq_zero_iff.2 rfl]
  have hdefault : enumDefault dialect e "" = ((EnumTable.ofEnum e).defaultName.map Value.text).getD (.int 0) := by
    unfold enumDefault
    rw [if_neg (by decide)]
    split
    · exact absurd rfl h
    · cases (EnumTable.ofEnum e).defaultName <;> rfl
  rw [hdefault]
  cases hzero : Table.get? (EnumTable.ofEnum e).byNumber (String.ofList (Numeral.ofInt 0)) with
  | none => rw [Codec.ElementType.ofEnumNumber_of_none hzero, hname, hzero]
  | some name => rw [Codec.ElementType.ofEnumNumber_of_get? hzero, hname, hzero]; rfl

/-- No field of the file without presence declares a default, and the enums that fields hold are well-formed. -/
structure ZeroBased (file : File) : Prop where
  default : ∀ place ∈ placesOf file, ∀ f ∈ place.message.fields, f.cardinality ≠ .repeated →
    Planner.presence place f = .ok false → f.default.getD "" = ""
  enums : ∀ place ∈ placesOf file, ∀ f ∈ place.message.fields, f.kind = .enum →
    ∀ e, f.resolved = some (.enum e) → e.WellFormed

end Plan

/-- A field of the oldest dialect always has presence. -/
theorem Planner.dialect_of_presence {place : Plan.Place} {f : Field} (hsingular : f.cardinality ≠ .repeated)
    (h : presence place f = .ok false) : place.file.dialect ≠ .proto2 := by
  intro hdialect
  rw [presence, if_neg hsingular, hdialect] at h
  split at h <;> cases h

/-! ### Fields and messages -/

namespace FieldPlan

/-- The default that is worked out for a field that neither has presence nor declares one. -/
theorem Describes.default_eq {unescape : Unescaping} {place : Plan.Place} {f : Field} {g : FieldPlan}
    (h : g.Describes unescape place f)
    (hdialect : place.file.dialect ≠ .proto2) (hdefault : f.default.getD "" = "") (hsingular : f.cardinality ≠ .repeated)
    {S : Set String} (hf : Plan.Encodable S f) {plans : List MessagePlan} {type : Codec.ElementType}
    (hholds : g.Holds plans (.element type)) : g.default = type.zero := by
  have hfield := h.default
  rw [Plan.fieldDefault, if_neg hsingular, hdefault] at hfield
  dsimp only at hfield
  cases hholds with
  | scalar hkind htype =>
    rw [h.kind] at hkind
    rw [h.scalar, if_pos hkind] at htype
    rw [hkind] at hfield
    dsimp only at hfield
    rw [htype, ok_bind, Plan.scalarDefault_empty] at hfield
    exact (Except.ok.inj hfield).symm
  | @enum e hkind he htable =>
    rw [h.kind] at hkind
    obtain ⟨e', hresolved⟩ := hf.exists_enum hkind
    -- two enums may stand behind one table, and the table alone says what zero is
    have hsame : EnumTable.ofEnum e' = EnumTable.ofEnum e :=
      Option.some.inj ((h.enum e' hkind hresolved).2.symm.trans htable)
    rw [hkind, hresolved] at hfield
    dsimp only at hfield
    rw [Plan.enumDefault_empty hdialect, hsame] at hfield
    exact (Except.ok.inj hfield).symm

theorem Describes.holds {unescape : Unescaping} {place : Plan.Place} {f : Field} {g : FieldPlan}
    (h : g.Describes unescape place f)
    (henums : f.kind = .enum → ∀ e, f.resolved = some (.enum e) → e.WellFormed) {plans : List MessagePlan}
    (hf : Plan.Encodable { name | name ∈ plans.map MessagePlan.fullName } f) : ∃ type, g.Holds plans type := by
  have hsettled := h.settled hf
  rcases hsettled.kind with hkind | hkind | hkind
  · obtain ⟨type, htype⟩ := hsettled.scalar hkind
    exact ⟨_, .scalar hkind htype⟩
  · have hkind' : f.kind = .enum := h.kind ▸ hkind
    obtain ⟨e, hresolved⟩ := hf.exists_enum hkind'
    exact ⟨_, .enum hkind (henums hkind' e hresolved) (h.enum e hkind' hresolved).2⟩
  · obtain ⟨m, hm, hchild⟩ := hsettled.child hkind
    exact ⟨_, .message hkind hm hchild⟩

end FieldPlan

/-- What tells the fields of a planned message apart. -/
structure MessagePlan.Distinct (m : MessagePlan) : Prop where
  range : ∀ f ∈ m.fields, 1 ≤ f.number ∧ f.number < 0x20000000
  numbers : (m.fields.map FieldPlan.number).Nodup
  stems : (m.fields.map fun f => m.stemOf f.number).Nodup
  keys : m.fields.Pairwise fun f g => ∀ key ∈ f.lookupKeys, key ∉ g.lookupKeys
  unknown : ∀ f ∈ m.fields, unknownKey ∉ f.lookupKeys

namespace Plan

/-- Messages of files without declared zeros are planned well, if their fields can be told apart. -/
theorem wellFormed_of_yields {p after : Planner} {targets others : List File} {plans : List MessagePlan}
    (h : Yields (Planner.plan targets others) p plans after) (hfiles : ∀ file ∈ targets ++ others, ZeroBased file)
    (hdistinct : ∀ m ∈ plans, m.Distinct) {m : MessagePlan} (hm : m ∈ plans) : m.WellFormed plans := by
  obtain ⟨places, hplaces, hplans⟩ := Planner.plan_yields h
  have hm' := hdistinct m hm
  refine ⟨fun g hg => ?_, hm'.numbers, hm'.stems, hm'.keys, hm'.unknown⟩
  obtain ⟨place, hplace, hmessage⟩ := exists_of_forall₂ hplans hm
  obtain ⟨f, hf, hdescribes⟩ := exists_of_forall₂ hmessage.fields hg
  rw [mem_supported, ← fullNames_of_describes hplans] at hf
  obtain ⟨hdeclared, hencodable⟩ := hf
  obtain ⟨file, hfile, hmem⟩ := exists_file_of_mem_collect hplaces (mem_of_mem_chosen hplace).1
  have hzero := hfiles file hfile
  refine ⟨(hm'.range g hg).1, (hm'.range g hg).2, (hdescribes.settled hencodable).packed,
    hdescribes.holds (hzero.enums place hmem f hdeclared) hencodable, ?_⟩
  intro hrepeated hpresence type hholds
  rw [hdescribes.repeated, decide_eq_false_iff_not] at hrepeated
  have habsent : Planner.presence place f = .ok false := hpresence ▸ hdescribes.presence
  exact hdescribes.default_eq (Planner.dialect_of_presence hrepeated habsent)
    (hzero.default place hmem f hdeclared hrepeated habsent) hrepeated hencodable hholds

end Plan

end MessageCodec
