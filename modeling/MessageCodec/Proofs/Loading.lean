import MessageCodec.Proofs.Contract
import MessageCodec.Schema.Registry

/-!
# When loading fails

Whatever a registry is asked for, it fails with an error of the schema that is reported, or on a oneof index that
counts back to before the first oneof of a message.
-/

namespace MessageCodec

namespace Descriptor.Message

/-- The messages that are taken in with a message: itself, and those inside it that are no map entries. -/
inductive TakesIn : Message → Message → Prop
  | self (m : Message) : TakesIn m m
  | nested {m d n : Message} (hd : d ∈ m.nested) (hentry : d.isMapEntry = false) (h : TakesIn d n) : TakesIn m n

/-- A field of the message counts back from the last oneof to before the first. -/
def Misindexed (m : Message) : Prop :=
  ∃ f ∈ m.fields, ∃ index, f.oneofIndex = some index ∧ index + m.oneofs.length < 0

end Descriptor.Message

namespace Descriptor.Request

def Misindexed (request : Request) : Prop :=
  ∃ file ∈ request.files, ∃ m ∈ file.messages, ∃ n, m.TakesIn n ∧ n.Misindexed

end Descriptor.Request

namespace Schema

open Descriptor (Request)

def Registry.For (request : Request) (r : Registry) : Prop := r.request = request

namespace Load

/-- An error is reported, or is a oneof index that is out of range where some condition holds. -/
def Fails (misindexed : Prop) (e : Error) (_ : Registry) : Prop :=
  e.Reported ∨ (e = .oneofIndex ∧ misindexed)

variable {request : Request}

/-- Work for a request that fails only as described. -/
abbrev Safe (request : Request) (misindexed : Prop) {α : Type} (work : Load α) : Prop :=
  Contract (Registry.For request) work (fun _ => Registry.For request) (Fails misindexed)

theorem Safe.fails {misindexed misindexed' : Prop} {α : Type} {work : Load α} (h : Safe request misindexed work)
    (himp : misindexed → misindexed') : Safe request misindexed' work := by
  apply Contract.errors h
  intro e _ he
  rcases he with hreported | ⟨heq, hfound⟩
  · exact .inl hreported
  · exact .inr ⟨heq, himp hfound⟩

theorem oneofOf_error {file fullName : String} {oneofs : List String} {d : Descriptor.Field} {e : Error}
    (h : oneofOf file fullName oneofs d = .error e) :
    e.Reported ∨
      (e = .oneofIndex ∧ ∃ index, d.oneofIndex = some index ∧ index + oneofs.length < 0) := by
  rw [oneofOf] at h
  split at h
  · cases h
  rename_i index hindex
  split at h
  · cases h
    exact .inl rfl
  rename_i hrange
  split at h
  · cases h
  rename_i hnone
  cases h
  refine .inr ⟨rfl, index, hindex, ?_⟩
  by_contra hcount
  obtain ⟨i, hi, hplace⟩ : ∃ i, i < oneofs.length ∧ oneofPlace? oneofs.length index = some i := by
    by_cases hsign : 0 ≤ index
    · exact ⟨index.toNat, by omega, by rw [oneofPlace?, if_pos hsign, if_pos (by omega)]⟩
    · exact ⟨(index + oneofs.length).toNat, by omega, by rw [oneofPlace?, if_neg hsign, if_pos (by omega)]⟩
  rw [hplace, Option.bind_some, List.getElem?_eq_getElem hi] at hnone
  cases hnone

theorem safe_enum (misindexed : Prop) (package : String) (parents : List String) (d : Descriptor.Enum) :
    Safe request misindexed (enum package parents d) := by
  apply Contract.seq
  · exact Contract.modify fun _ hr => hr
  · intro _
    exact Contract.pure fun _ => id

private theorem safe_refer (misindexed : Prop) (place : String) (kind : FieldKind) (typeName : Option String) :
    Safe request misindexed (refer place kind typeName) := by
  unfold refer
  split
  · split
    · exact Contract.modify fun _ hr => hr
    · exact Contract.pure fun _ => id
  · exact Contract.pure fun _ => id

private theorem safe_field {misindexed : Prop} (file fullName : String) {oneofs : List String} {d : Descriptor.Field}
    (h : ∀ index, d.oneofIndex = some index → index + oneofs.length < 0 → misindexed) :
    Safe request misindexed (field file fullName oneofs d) := by
  rw [field]
  apply Contract.seq (Contract.get fun _ hr => hr)
  intro r
  apply Contract.seq
  · apply Contract.lift
    · exact fun _ _ hr _ => hr
    · intro _ e _ he
      rcases oneofOf_error he with hreported | ⟨rfl, index, hindex, hbefore⟩
      · exact .inl hreported
      · exact .inr ⟨rfl, h index hindex hbefore⟩
  · intro oneof
    apply Contract.seq (safe_refer misindexed _ _ _)
    intro _
    exact Contract.pure fun _ => id

mutual

theorem safe_message (file package : String) (parents : List String) : (d : Descriptor.Message) →
    Safe request (∃ n, d.TakesIn n ∧ n.Misindexed) (message file package parents d)
  | ⟨name, fields, nested, enums, oneofs, options⟩ => by
    rw [message]
    apply Contract.seq (Contract.get fun _ hr => hr)
    intro r
    dsimp only
    refine Contract.seq (Contract.modify fun _ hr => ?_) fun _ => ?_
    · exact hr
    refine Contract.seq ?_ fun nested' => ?_
    · apply (safe_messagesIn file package (parents ++ [name]) nested).fails
      intro ⟨d, hd, hentry, n, htaken, hn⟩
      exact ⟨n, .nested hd hentry htaken, hn⟩
    refine Contract.seq ?_ fun enums' => ?_
    · exact Contract.mapM fun d _ => safe_enum _ _ _ _
    refine Contract.seq ?_ fun fields' => ?_
    · apply Contract.mapM
      intro d hd
      apply safe_field
      intro index hindex hbefore
      exact ⟨_, .self _, d, hd, index, hindex, hbefore⟩
    exact Contract.pure fun _ => id

theorem safe_messagesIn (file package : String) (parents : List String) : (ds : List Descriptor.Message) →
    Safe request (∃ d ∈ ds, d.isMapEntry = false ∧ ∃ n, d.TakesIn n ∧ n.Misindexed) (messagesIn file package parents ds)
  | [] => by
    rw [messagesIn]
    exact Contract.pure fun _ => id
  | d :: rest => by
    rw [messagesIn]
    split
    · refine Contract.seq (Contract.modify fun _ hr => ?_) fun _ => ?_
      · exact hr
      apply (safe_messagesIn file package parents rest).fails
      intro ⟨d', hd', hfound⟩
      exact ⟨d', List.mem_cons_of_mem d hd', hfound⟩
    · rename_i hentry
      refine Contract.seq ?_ fun m => ?_
      · apply (safe_message file package parents d).fails
        intro hfound
        exact ⟨d, List.mem_cons_self, Bool.eq_false_of_not_eq_true hentry, hfound⟩
      refine Contract.seq ?_ fun more => ?_
      · apply (safe_messagesIn file package parents rest).fails
        intro ⟨d', hd', hfound⟩
        exact ⟨d', List.mem_cons_of_mem d hd', hfound⟩
      exact Contract.pure fun _ => id

end

private theorem safe_declarations (d : Descriptor.File) :
    Safe request (∃ m ∈ d.messages, ∃ n, m.TakesIn n ∧ n.Misindexed) (declarations d) := by
  refine Contract.seq (Contract.lift (fun _ _ hr _ => hr) ?_) fun dialect => ?_
  · intro _ e _ he
    rw [dialectOf] at he
    split at he
    · cases he
    split at he
    · cases he
    · cases he
      exact .inl rfl
  refine Contract.seq (Contract.mapM fun e _ => safe_enum _ _ _ e) fun enums => ?_
  refine Contract.seq (Contract.mapM fun m hm => ?_) fun messages => Contract.pure fun _ => id
  apply (safe_message d.name d.package [] m).fails
  intro hfound
  exact ⟨m, hm, hfound⟩

private theorem safe_file (known : List String) (d : Descriptor.File) :
    Safe request (∃ m ∈ d.messages, ∃ n, m.TakesIn n ∧ n.Misindexed) (file known d) := by
  rw [file]
  dsimp only
  split
  · exact Contract.throw_bind fun _ _ => .inl rfl
  · refine Contract.seq (safe_declarations d) fun f => Contract.modify fun _ hr => ?_
    exact hr

end Load

namespace Registry

open Load

variable {request : Request}

private theorem safe_resolve (misindexed : Prop) : Safe request misindexed resolve := by
  rw [resolve]
  refine Contract.get_bind fun r hr => ?_
  dsimp only
  split
  · exact Contract.throw_bind fun _ _ => .inl rfl
  · exact Contract.set fun _ _ => hr

private theorem safe_ensure : Safe request request.Misindexed ensure := by
  rw [ensure]
  refine Contract.get_bind fun r hr => ?_
  split
  · apply Contract.pre _ fun s (hs : s = r) => hs.symm ▸ hr
    refine Contract.seq (Contract.forM fun d hd => ?_) fun _ => safe_resolve _
    apply (safe_file _ d).fails
    intro hfound
    rw [hr] at hd
    exact ⟨d, hd, hfound⟩
  · exact Contract.pure fun s hs => hs.symm ▸ hr

theorem safe_allFiles : Safe request request.Misindexed allFiles := by
  refine Contract.seq safe_ensure fun _ => ?_
  refine Contract.seq (Contract.get fun _ hr => hr) fun r => Contract.pure fun _ => id

theorem safe_fileNamed (name : String) : Safe request request.Misindexed (file name) := by
  refine Contract.seq safe_allFiles fun files => ?_
  split
  · exact Contract.pure fun _ => id
  · exact Contract.throw fun _ _ => .inl rfl

end Registry

end Schema

end MessageCodec
