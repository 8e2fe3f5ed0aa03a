import MessageCodec.Proofs.Lines
import MessageCodec.Proofs.Selection
import MessageCodec.Proofs.Symbols

/-!
# Plans are closed

Plans that come out of one run fit together: they differ in name and in symbol, a field that holds a
message holds one of them, and every other field has the type that its kind asks for. Whatever is made
from plans relies on no more than this.
-/

namespace MessageCodec

open Schema Planning

/-! ### Defaults -/

namespace Plan

private theorem isSome_write?_declaredInteger (s : String) : (IntegerText.write? (declaredInteger s)).isSome := by
  have hwritten {a : Option Int} {n : Int} (h : (a.bind fun n => (IntegerText.write? n).map fun _ => n) = some n) :
      (IntegerText.write? n).isSome := by
    obtain ⟨m, -, hm⟩ := Option.bind_eq_some_iff.1 h
    obtain ⟨digits, hdigits, rfl⟩ := Option.map_eq_some_iff.1 hm
    rw [hdigits]
    rfl
  rw [declaredInteger]
  rcases hten : (IntegerText.signed? IntegerText.baseTen? (Text.trim s.toList)).bind _ with _ | n
  · rcases hany : (IntegerText.signed? IntegerText.anyBase? (Text.trim s.toList)).bind _ with _ | n
    · exact IntegerText.write?_of_lt (n := 0) (by decide) ▸ rfl
    · exact hwritten hany
  · exact hwritten hten

private theorem printable_scalarDefault {unescape : Unescaping} {type : ScalarType} {declared : String} {v : Value}
    (h : scalarDefault unescape type declared = .ok v) : v.Printable := by
  have hzero : (Value.int 0).Printable := .int (IntegerText.write?_of_lt (n := 0) (by decide) ▸ rfl)
  have hint := isSome_write?_declaredInteger declared
  unfold scalarDefault at h
  split at h
  · obtain rfl := Except.ok.inj h
    cases type <;> first | exact hzero | constructor
  · cases type with
    | bytes =>
      dsimp only at h
      split at h
      · exact Except.ok.inj h ▸ .text _
      · cases h
    | int32 | uint32 | sint32 | fixed32 | sfixed32 => exact Except.ok.inj h ▸ .int hint
    | _ => exact Except.ok.inj h ▸ by constructor

private theorem printable_enumDefault (dialect : Dialect) (e : Enum) (declared : String) :
    (enumDefault dialect e declared).Printable := by
  unfold enumDefault
  split
  · exact .text _
  split
  · exact .text _
  split
  · exact .text _
  · exact .int (IntegerText.write?_of_lt (n := 0) (by decide) ▸ rfl)

theorem printable_fieldDefault {unescape : Unescaping} {dialect : Dialect} {f : Field} {v : Value}
    (h : fieldDefault unescape dialect f = .ok v) : v.Printable := by
  unfold fieldDefault at h
  split at h
  · exact Except.ok.inj h ▸ .list (by simp)
  dsimp only at h
  split at h
  · exact Except.ok.inj h ▸ .null
  · exact Except.ok.inj h ▸ printable_enumDefault ..
  · obtain ⟨type, -, hdefault⟩ := bind_eq_ok.1 h
    exact printable_scalarDefault hdefault

end Plan

/-! ### Fields -/

/-- A field as everything that is made from it expects it, when the given messages are planned together. -/
structure FieldPlan.Settled (plans : List MessagePlan) (f : FieldPlan) : Prop where
  kind : f.kind = .scalar ∨ f.kind = .enum ∨ f.kind = .message
  scalar : f.kind = .scalar → ∃ type, FieldPlan.scalarOf f.scalar = .ok type
  enum : f.kind = .enum → ∃ e, EnumTable.build e = .ok (EnumTable.ofEnum e) ∧ f.enum = some (EnumTable.ofEnum e)
  no_enum : f.kind ≠ .enum → f.enum = none
  child : f.kind = .message → ∃ m ∈ plans, f.child = some m.fullName
  packed : f.packed = true → f.repeated = true ∧ f.isPackable = true
  presence : f.presence = true → f.repeated = false
  default : f.default.Printable

private theorem Planner.presence_singular {place : Plan.Place} {f : Field} (h : presence place f = .ok true) :
    f.cardinality ≠ .repeated := by
  intro hrepeated
  rw [presence, if_pos hrepeated] at h
  cases h

theorem FieldPlan.Describes.settled {unescape : Unescaping} {place : Plan.Place} {f : Field} {g : FieldPlan}
    (h : g.Describes unescape place f)
    {plans : List MessagePlan} (hf : Plan.Encodable { name | name ∈ plans.map MessagePlan.fullName } f) :
    g.Settled plans where
  kind := by
    rw [h.kind]
    cases hf with
    | scalar hkind => exact .inl hkind
    | enum hkind => exact .inr (.inl hkind)
    | message hkind => exact .inr (.inr hkind)
  scalar hkind := by
    rw [h.kind] at hkind
    cases hf with
    | @scalar _ type _ hscalar htype =>
      refine ⟨type, ?_⟩
      rw [h.scalar, if_pos hkind, hscalar, scalarOf]
      simp only [Option.bind_some, htype]
    | enum hkind' => simp [hkind] at hkind'
    | message hkind' => simp [hkind] at hkind'
  enum hkind := by
    rw [h.kind] at hkind
    obtain ⟨e, hresolved⟩ := hf.exists_enum hkind
    exact ⟨e, h.enum e hkind hresolved⟩
  no_enum hkind := h.no_enum (h.kind ▸ hkind)
  child hkind := by
    rw [h.kind] at hkind
    cases hf with
    | @message id name _ hresolved hmem =>
      obtain ⟨m, hm, rfl⟩ := List.mem_map.1 hmem
      refine ⟨m, hm, ?_⟩
      simp only [h.child, Plan.messageTarget?, hkind, hresolved, Option.map_some]
    | scalar hkind' => simp [hkind] at hkind'
    | enum hkind' => simp [hkind] at hkind'
  packed hpacked := by
    obtain ⟨before, after, hyields⟩ := h.packed
    obtain ⟨hrepeated, hpackable⟩ := Planner.packed_yields hyields hpacked
    refine ⟨by rw [h.repeated, hrepeated]; rfl, ?_⟩
    rw [isPackable, h.kind, h.scalar]
    split
    · exact hpackable
    · -- what is not a scalar is packable by its kind alone
      rename_i hkind
      revert hpackable hkind
      cases f.kind <;> simp [packable]
  presence hpresence := by
    have hsingular := Planner.presence_singular (hpresence ▸ h.presence)
    rw [h.repeated]
    exact decide_eq_false hsingular
  default := Plan.printable_fieldDefault h.default

/-! ### Messages -/

structure Plan.Closed (plans : List MessagePlan) : Prop where
  names : (plans.map MessagePlan.fullName).Nodup
  symbols : (plans.map MessagePlan.symbol).Nodup
  fields : ∀ m ∈ plans, ∀ f ∈ m.fields, f.Settled plans

/-- What a run of a planner yields fits together. -/
theorem Plan.closed_of_yields {p after : Planner} (hp : after.resolver.Sound) {targets others : List File}
    {plans : List MessagePlan} (h : Yields (Planner.plan targets others) p plans after) : Closed plans := by
  obtain ⟨places, hplaces, hplans⟩ := Planner.plan_yields h
  have hfull := fullNames_of_describes hplans
  have hnames : (plans.map MessagePlan.fullName).Nodup := hfull ▸ chosen_names_nodup hplaces
  refine ⟨hnames, ?_, fun m hm f hf => ?_⟩
  · refine hnames.of_map.map_on fun m hm m' hm' hsymbol => List.inj_on_of_nodup_map hnames hm hm' ?_
    obtain ⟨place, -, hplace⟩ := exists_of_forall₂ hplans hm
    obtain ⟨place', -, hplace'⟩ := exists_of_forall₂ hplans hm'
    rw [hplace.fullName, hplace'.fullName]
    exact hp.lookup_inj hplace.symbol (hsymbol ▸ hplace'.symbol)
  · obtain ⟨place, -, hplace⟩ := exists_of_forall₂ hplans hm
    obtain ⟨g, hg, hdescribes⟩ := exists_of_forall₂ hplace.fields hf
    rw [mem_supported, ← hfull] at hg
    exact hdescribes.settled hg.2

end MessageCodec
