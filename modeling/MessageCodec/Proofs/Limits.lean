import MessageCodec.Proofs.Contract
import MessageCodec.Proofs.Rendering
import MessageCodec.Proofs.Totality

/-!
# When planning and rendering fail

Planning fails with errors of the input only: a message that is not loaded, a symbol that cannot be had, an escape
in a default, an integer beyond the digit limit. What it yields is closed, so that rendering has nothing left to
fail on but the digit limit.
-/

namespace MessageCodec

open Schema Plan

private theorem Error.reported_of_isDigitLimit {e : Error} (h : e.isDigitLimit = true) : e.Reported := by
  cases e <;> cases h <;> rfl

private theorem LimitedBy.reported {P : Prop} {α : Type} {x : Except Error α} (h : LimitedBy P x) :
    FailsOnly Error.Reported x :=
  fun e he => Error.reported_of_isDigitLimit (h e he).1

theorem FailsOnly.of_exists {ε α : Type} {E : ε → Prop} {Q : α → Prop} {x : Except ε α} (h : ∃ a, x = .ok a ∧ Q a) :
    FailsOnly E x := by
  obtain ⟨a, rfl, -⟩ := h
  exact .ok a

/-! ### Fields -/

namespace Plan

theorem reported_isSetting (v : Value) (word : String) : FailsOnly Error.Reported (isSetting v word) := by
  apply (Value.limitedBy_plainText v).reported.bind
  intro s _
  exact .ok _

private theorem reported_pull (places : List Place) (seen : List String) (work : List (String × Field)) :
    FailsOnly Error.Reported (pull places seen work) := by
  induction places, seen, work using pull.induct with
  | case1 =>
    rw [pull]
    exact .ok []
  | case2 places seen referrer f rest hnone ih =>
    rw [pull_of_no_target hnone]
    exact ih
  | case3 places seen referrer f rest id fullName htarget hseen ih =>
    rw [pull_of_known htarget hseen]
    exact ih
  | case4 places seen referrer f rest id fullName htarget hseen hmissing =>
    rw [pull_of_missing htarget hseen hmissing]
    exact .error rfl
  | case5 places seen referrer f rest id fullName htarget hseen p hfound hlt ih =>
    rw [pull_of_found htarget hseen hfound]
    apply ih.bind
    intro more _
    exact .ok _

theorem reported_collect (targets others : List File) : FailsOnly Error.Reported (collect targets others) := by
  rw [collect]
  apply (reported_pull _ _ _).bind
  intro pulled _
  exact .ok _

private theorem reported_scalarDefault (unescape : Unescaping) (type : ScalarType) (declared : String) :
    FailsOnly Error.Reported (scalarDefault unescape type declared) := by
  unfold scalarDefault
  split
  · exact .ok _
  cases type with
  | bytes =>
    dsimp only
    split
    · exact .ok _
    · rename_i fault _
      cases fault <;> exact .error rfl
  | _ => exact .ok _

theorem reported_fieldDefault {S : Set String} {f : Field} (hf : Encodable S f) (unescape : Unescaping)
    (dialect : Dialect) : FailsOnly Error.Reported (fieldDefault unescape dialect f) := by
  rw [fieldDefault]
  split
  · exact .ok _
  cases hf with
  | @scalar name type hkind hscalar htype =>
    have hof : FieldPlan.scalarOf f.scalar = .ok type := by
      rw [FieldPlan.scalarOf, hscalar, Option.bind_some, htype]
    rw [hkind]
    dsimp only
    rw [hof, ok_bind]
    exact reported_scalarDefault unescape type _
  | enum hkind hresolved =>
    rw [hkind, hresolved]
    exact .ok _
  | message hkind =>
    rw [hkind]
    exact .ok _

end Plan

/-! ### Planning -/

namespace Planner

theorem reported_presence (place : Place) (f : Field) : FailsOnly Error.Reported (presence place f) := by
  rw [presence]
  split
  · exact .ok _
  split
  · exact .ok _
  cases place.file.dialect with
  | proto2 => exact .ok _
  | proto3 => exact .ok _
  | editions =>
    dsimp only
    split
    · exact (reported_isSetting _ _).map _
    · exact .ok _

/-- Work of a planner that fails with errors of the input only and keeps a condition on what has been handed
out. -/
abbrev Reports (P : Naming.Resolver → Prop) {α : Type} (work : Planning α) : Prop :=
  Contract (Handing P) work (fun _ => Handing P) fun e _ => e.Reported

variable {P : Naming.Resolver → Prop}

theorem reports_lift {α : Type} {x : Except Error α} (h : FailsOnly Error.Reported x) :
    Reports P (liftM x : Planning α) :=
  Contract.lift (fun _ _ hp _ => hp) fun _ e _ he => h e he

theorem reports_note (entry : JournalEntry) : Reports P (note entry) := Contract.modify fun _ => id

private theorem reports_packed (place : Place) (f : Field) : Reports P (packed place f) := by
  rw [packed]
  split
  · exact Contract.pure fun _ => id
  refine Contract.seq (reports_lift ?_) fun requested => ?_
  · split
    · exact .ok _
    · split
      · split
        · exact reported_isSetting _ _
        · exact .ok _
      · exact .ok _
    · exact .ok _
  · split
    · exact Contract.seq (reports_note _) fun _ => Contract.pure fun _ => id
    · exact Contract.pure fun _ => id

theorem reports_field {S : Set String} (place : Place) {f : Field} (hf : Encodable S f) :
    Reports P (field place f) := by
  rw [field]
  refine Contract.seq (reports_lift ?_) fun table => ?_
  · split
    · rw [EnumTable.build]
      split
      · exact .ok _
      · exact .error rfl
    · exact .ok _
  refine Contract.seq (reports_packed place f) fun packed => ?_
  refine Contract.seq (reports_lift (reported_presence place f)) fun presence => ?_
  refine Contract.get_bind fun p hp => ?_
  refine Contract.pre (P := Handing P) ?_ (by rintro _ rfl; exact hp)
  refine Contract.seq (reports_lift (reported_fieldDefault hf _ _)) fun default => ?_
  exact Contract.pure fun _ => id

private theorem reports_skipped (selected : List String) (m : Message) (f : Field) : Reports P
    (match obstacle? selected f with
    | some reason => note ⟨.debug, "Skipping field " ++ m.fullName ++ "." ++ f.name ++ ": " ++ reason⟩
    | none => pure ()) := by
  split
  · exact reports_note _
  · exact Contract.pure fun _ => id

def Named (places : List Place) (r : Naming.Resolver) : Prop :=
  ∀ place ∈ places, (r.lookup? place.message.fullName).isSome

theorem reports_message {places : List Place} {place : Place} (hplace : place ∈ places) (selected : List String) :
    Reports (Named places) (message selected place) := by
  rw [message]
  refine Contract.seq (Contract.forM fun f _ => reports_skipped selected place.message f) fun _ => ?_
  refine Contract.get_bind fun p hp => ?_
  obtain ⟨symbol, hsymbol⟩ := Option.isSome_iff_exists.1 (hp place hplace)
  rw [Naming.Resolver.lookup_eq_ok.2 hsymbol]
  refine Contract.pre (P := Handing (Named places)) ?_ (by rintro _ rfl; exact hp)
  refine Contract.seq (reports_lift (.ok _)) fun _ => ?_
  refine Contract.seq (Contract.mapM fun f hf => ?_) fun fields => ?_
  · exact reports_field place ((mem_supported).1 hf).2
  · refine Contract.seq (Contract.modify fun _ hp => ?_) fun _ => Contract.pure fun _ => id
    exact hp

private theorem lookup?_of_register {r r' : Naming.Resolver} {fullName front back symbol : String}
    (h : r.register fullName front back = .ok (symbol, r')) (other : String) :
    r'.lookup? other = (r.lookup? other).or (if fullName = other then some symbol else none) := by
  have hcases := Naming.Resolver.registers r fullName front back
  rw [h] at hcases
  cases hcases with
  | known hknown =>
    split
    · rename_i hname
      rw [← hname, hknown, Option.some_or]
    · rw [Option.or_none]
  | chosen => exact Naming.Resolver.lookup?_assign ..
  | made => exact Naming.Resolver.lookup?_assign ..

private theorem contract_register {places : List Place} (place : Place) :
    Contract (Handing (Named places)) (register place) (fun _ => Handing (Named (place :: places)))
      fun e _ => e.Reported := by
  intro p hp
  rw [run_register]
  rcases h : p.resolver.register _ _ _ with e | ⟨symbol, resolver⟩
  · have hcases := Naming.Resolver.registers p.resolver place.message.fullName ""
      (wantedSymbol p.settings place.file.package place.message.fullName)
    rw [h] at hcases
    cases hcases
    exact rfl
  · intro other hother
    rw [lookup?_of_register h]
    rcases List.mem_cons.1 hother with rfl | hother
    · rw [if_pos rfl]
      simp
    · rw [Option.isSome_or, hp other hother, Bool.true_or]

private theorem contract_registers (places done : List Place) :
    Contract (Handing (Named done)) (places.forM register) (fun _ => Handing (Named (places.reverse ++ done)))
      fun e _ => e.Reported := by
  induction places generalizing done with
  | nil => exact Contract.pure fun _ => id
  | cons place places ih =>
    rw [List.forM]
    apply (contract_register place).bind
    intro _
    rw [List.reverse_cons, List.append_assoc]
    exact ih (place :: done)

/-- Planning fails with errors of the input only. -/
theorem contract_plan (targets others : List File) :
    Contract (fun _ => True) (plan targets others) (fun _ _ => True) fun e _ => e.Reported := by
  refine Contract.pre (P := Handing (Named [])) ?_ fun p _ place hplace => by cases hplace
  rw [plan]
  refine Contract.seq (reports_lift (reported_collect targets others)) fun places => ?_
  refine Contract.seq (Contract.forM fun entry _ => reports_note entry) fun _ => ?_
  refine (contract_registers _ []).bind fun _ => ?_
  refine (Contract.mapM fun place hplace => ?_).post fun _ _ _ => trivial
  exact reports_message (List.mem_append_left _ (List.mem_reverse.2 hplace)) _

end Planner

/-! ### Rendering -/

namespace Source

theorem reported_schemaNumber (n : Int) : FailsOnly Error.Reported (schemaNumber n) := by
  rw [schemaNumber]
  split
  · exact .ok _
  · exact .error rfl

namespace Emitter

variable {plans : List MessagePlan} {e : Emitter} {f : FieldPlan}

theorem reported_writeTag (tag : Int) : FailsOnly Error.Reported (writeTag tag) :=
  (reported_schemaNumber tag).bind fun _ _ => .ok _

theorem reported_armLine (keyword : String) (number : Int) (type : Wire.WireType) :
    FailsOnly Error.Reported (armLine keyword number type) :=
  (reported_schemaNumber number).bind fun _ _ => .ok _

theorem reported_encodeSingle (he : e.Knows plans) (hf : f.Settled plans) :
    FailsOnly Error.Reported (e.encodeSingle f) := by
  obtain ⟨type, htag⟩ := tag_ok hf
  rw [encodeSingle]
  split
  · rename_i hkind
    obtain ⟨body, hbody, -⟩ := writeMessage_ok he hf hkind (show OneLine "value" from oneLine_literal rfl)
    rw [htag, ok_bind, hbody]
    exact (reported_writeTag _).bind fun _ _ => .ok _
  · rename_i hkind
    obtain ⟨source, hsource, -⟩ := ofField_ok hf hkind (oneLine_constants e f)
    rw [hsource, ok_bind, htag, ok_bind]
    exact (reported_writeTag _).bind fun _ _ => .ok _

private theorem reported_encodeUnpacked (he : e.Knows plans) (hf : f.Settled plans) :
    FailsOnly Error.Reported (e.encodeUnpacked f) := by
  obtain ⟨type, htag⟩ := tag_ok hf
  rw [encodeUnpacked]
  split
  · rename_i hkind
    obtain ⟨body, hbody, -⟩ := writeMessage_ok he hf hkind (show OneLine "item" from oneLine_literal rfl)
    rw [htag, ok_bind, hbody]
    exact (reported_writeTag _).bind fun _ _ => .ok _
  · rename_i hkind
    obtain ⟨source, hsource, -⟩ := ofField_ok hf hkind (oneLine_constants e f)
    rw [hsource, ok_bind, htag, ok_bind]
    exact (reported_writeTag _).bind fun _ _ => .ok _

private theorem reported_encodePacked (hf : f.Settled plans) (hkind : f.kind ≠ .message) :
    FailsOnly Error.Reported (e.encodePacked f) := by
  obtain ⟨source, hsource, -⟩ := ofField_ok hf hkind (oneLine_constants e f)
  rw [encodePacked, hsource, ok_bind]
  exact (reported_writeTag _).bind fun _ _ => .ok _

theorem reported_encodeLines (he : e.Knows plans) (hf : f.Settled plans) :
    FailsOnly Error.Reported (e.encodeLines f) := by
  obtain ⟨text, htext, -⟩ := describe_ok hf
  rw [encodeLines]
  apply (reported_schemaNumber f.number).bind
  intro number _
  rw [htext, ok_bind]
  split
  · rename_i hpacked
    rw [Bool.and_eq_true] at hpacked
    exact (reported_encodePacked hf (kind_of_packable (hf.packed hpacked.2).2)).bind fun _ _ => .ok _
  split
  · exact (reported_encodeUnpacked he hf).bind fun _ _ => .ok _
  · exact (reported_encodeSingle he hf).bind fun _ _ => .ok _

private theorem reported_packedArm (hf : f.Settled plans) (keyword : String) :
    FailsOnly Error.Reported (e.packedArm f keyword) := by
  rw [packedArm]
  split
  · rename_i hpackable
    rw [Bool.and_eq_true] at hpackable
    apply (reported_armLine keyword f.number .delimited).bind
    intro arm _
    exact (FailsOnly.of_exists (emits_decodePacked hf (kind_of_packable hpackable.2))).bind fun _ _ => .ok _
  · exact .ok []

private theorem reported_decodeLines (he : e.Knows plans) (hf : f.Settled plans) (first : Bool) :
    FailsOnly Error.Reported (e.decodeLines f first) := by
  obtain ⟨type, htype⟩ := wireType_ok hf
  rw [decodeLines]
  apply (reported_packedArm hf _).bind
  intro packed _
  rw [htype, ok_bind]
  apply (reported_armLine _ f.number type).bind
  intro arm _
  exact (FailsOnly.of_exists (emits_decodeSingle he hf)).bind fun _ _ => .ok _

section Functions

variable (he : e.Knows plans) (hsettled : ∀ f ∈ e.message.fields, f.Settled plans)

include he hsettled

private theorem reported_arms : FailsOnly Error.Reported e.arms := by
  rw [arms]
  cases hfields : e.message.fields with
  | nil => exact .ok []
  | cons f rest =>
    rw [hfields, List.forall_mem_cons] at hsettled
    apply (reported_decodeLines he hsettled.1 true).bind
    intro opening _
    apply (FailsOnly.mapM fun g hg => reported_decodeLines he (hsettled.2 g hg) false).bind
    intro others _
    exact .ok _

private theorem reported_encodeFunction : FailsOnly Error.Reported e.encodeFunction := by
  rw [encodeFunction]
  apply (FailsOnly.mapM fun f hf => reported_encodeLines he (hsettled f hf)).bind
  intro fields _
  exact .ok _

private theorem reported_decodeFunction : FailsOnly Error.Reported e.decodeFunction := by
  rw [decodeFunction]
  apply (reported_arms he hsettled).bind
  intro arms _
  refine FailsOnly.bind (.of_exists (fillLines_ok hsettled)) ?_
  intro defaults _
  exact .ok _

private theorem reported_lines : FailsOnly Error.Reported e.lines := by
  rw [lines]
  apply FailsOnly.bind
  · exact FailsOnly.bind (.of_exists (imported_ok he hsettled)) fun _ _ => .ok _
  intro imports _
  refine FailsOnly.bind (.of_exists (constants_ok hsettled)) ?_
  intro constants _
  apply (reported_encodeFunction he hsettled).bind
  intro encode _
  apply (reported_decodeFunction he hsettled).bind
  intro decode _
  exact .ok _

end Functions

end Emitter

/-- Rendering plans that fit together fails at the digit limit only. -/
theorem reported_package {plans : List MessagePlan} (hplans : Closed plans) (settings : Settings) (runtime : String)
    (inputs : List String) : FailsOnly Error.Reported (package settings runtime inputs plans) := by
  rw [package, ofPairs_symbols hplans.names]
  apply FailsOnly.bind
  · apply FailsOnly.mapM
    intro m hm
    have hknows : (moduleOf settings plans m).Knows plans := fun m' hm' => get?_symbolsOf hplans.names hm'
    have hlines := Emitter.reported_lines hknows (hplans.fields m hm)
    exact (hlines.bind fun _ _ => .ok _).bind fun _ _ => .ok _
  · intro modules _
    exact .ok _

end Source

end MessageCodec
