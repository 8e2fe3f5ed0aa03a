import MessageCodec.Proofs.Contract
import MessageCodec.Proofs.Table
import MessageCodec.Proofs.Traversal
import MessageCodec.Schema.Registry

/-!
# What a registry takes in

Taking in the files of a request stops at the first fault in them, and the faults are told by the files alone,
whatever the registry holds already. Where there is none, a registry grows by what the files declare: by a type for
each message and enum, by the type names that fields mention and by the names of map entries. Map entries that were
known before can make a map of a field, which then mentions no type; so what is mentioned is told by the messages that
come out, and not by the files.
-/

namespace MessageCodec

open Schema (Dialect FieldKind unstack)
open Schema.Load

/-! ### Messages that are taken in -/

namespace Descriptor

structure Site where
  package : String
  parents : List String
  message : Message

def entryNames (package : String) (parents : List String) (ds : List Message) : List String :=
  (ds.filter Message.isMapEntry).map fun d => qualify package parents d.name

namespace Site

def fullName (s : Site) : String := qualify s.package s.parents s.message.name

def inside (s : Site) : List String := s.parents ++ [s.message.name]

def enumNames (s : Site) : List String := s.message.enums.map fun d => qualify s.package s.inside d.name

def entries (s : Site) : List String := entryNames s.package s.inside s.message.nested

end Site

mutual

def Message.sites (package : String) (parents : List String) (d : Message) : List Site :=
  match d with
  | ⟨name, fields, nested, enums, oneofs, options⟩ =>
    ⟨package, parents, ⟨name, fields, nested, enums, oneofs, options⟩⟩ :: sitesIn package (parents ++ [name]) nested

def sitesIn (package : String) (parents : List String) : List Message → List Site
  | [] => []
  | d :: rest =>
    if d.isMapEntry then sitesIn package parents rest
    else d.sites package parents ++ sitesIn package parents rest

end

namespace File

def sites (d : File) : List Site := d.messages.flatMap (Message.sites d.package [])

def enumNames (d : File) : List String := d.enums.map fun e => qualify d.package [] e.name

def typeNames (d : File) : List String := d.enumNames ++ d.sites.flatMap fun s => s.fullName :: s.enumNames

def entries (d : File) : List String := d.sites.flatMap Site.entries

end File

/-! ### Faults -/

def faultsOf {α : Type} : Except Error α → List Error
  | .ok _ => []
  | .error e => [e]

mutual

def Message.faults (file package : String) (parents : List String) (d : Message) : List Error :=
  match d with
  | ⟨name, fields, nested, _, oneofs, _⟩ =>
    faultsIn file package (parents ++ [name]) nested ++
      fields.flatMap fun f => faultsOf (oneofOf file (qualify package parents name) oneofs f)

def faultsIn (file package : String) (parents : List String) : List Message → List Error
  | [] => []
  | d :: rest =>
    if d.isMapEntry then faultsIn file package parents rest
    else d.faults file package parents ++ faultsIn file package parents rest

end

def File.missing (known : List String) (d : File) : List Error :=
  (d.dependencies.filter fun name => !known.contains name).map fun name => .unresolvedDependency name d.name

def File.faults (known : List String) (d : File) : List Error :=
  d.missing known ++ (faultsOf (dialectOf d) ++ d.messages.flatMap (Message.faults d.name d.package []))

end Descriptor

/-! ### What comes out -/

namespace Schema

/-- The type name of a field that is resolved in the end. -/
def Field.mention? (f : Field) : Option String := if f.kind = .message || f.kind = .enum then f.typeName else none

/-- The types that a message declares, without those of the messages inside it. -/
def Message.declares (m : Message) : Table Reference :=
  (m.fullName, .message m.id m.fullName) :: m.enums.map fun e => (e.fullName, .enum e)

def Message.mentions (m : Message) : List String := m.fields.filterMap Field.mention?

def File.declares (f : File) : Table Reference :=
  f.enums.map (fun e => (e.fullName, .enum e)) ++ f.allMessages.flatMap Message.declares

def File.mentions (f : File) : List String := f.allMessages.flatMap Message.mentions

theorem unstack_append (xs ys : List Message) : unstack (xs ++ ys) = unstack xs ++ unstack ys := by
  simp only [unstack_eq_preorder, List.flatMap_append]

theorem unstack_cons (m : Message) (rest : List Message) :
    unstack (m :: rest) = m :: (unstack m.nested ++ unstack rest) := by
  rw [unstack, unstack_append]

theorem unstack_eq_flatMap (ms : List Message) : unstack ms = ms.flatMap fun m => unstack [m] := by
  simp only [unstack_eq_preorder, List.flatMap_singleton]

end Schema

namespace Descriptor

/-- A field that is a map if its type is a map entry. -/
def Field.MayBeMap (d : Field) : Prop := d.type = .message ∧ d.label = .repeated

/-- A field comes out of what is declared. It is a map if its type is a map entry of its own message, and only if its
type is known to be one. -/
structure Field.Loads (own known : List String) (d : Field) (f : Schema.Field) : Prop where
  name : f.name = d.name
  typeName : f.typeName = (classify d).2.2
  oneofIndex : f.oneofIndex = d.oneofIndex
  resolved : f.resolved = none
  kind : (f.kind = .map ∧ d.MayBeMap ∧ bareName d.typeName ∈ known) ∨
    (f.kind = (classify d).1 ∧ ¬ (d.MayBeMap ∧ bareName d.typeName ∈ own))

theorem Field.Loads.mono {own own' known known' : List String} (hown : own' ⊆ own) (hknown : known ⊆ known') {d : Field}
    {f : Schema.Field} (h : d.Loads own known f) : d.Loads own' known' f := by
  refine ⟨h.name, h.typeName, h.oneofIndex, h.resolved, h.kind.imp ?_ ?_⟩
  · intro ⟨hkind, hmay, hmem⟩
    exact ⟨hkind, hmay, hknown hmem⟩
  · intro ⟨hkind, hnot⟩
    exact ⟨hkind, fun hboth => hnot ⟨hboth.1, hown hboth.2⟩⟩

structure Site.Loads (known : List String) (s : Site) (m : Schema.Message) : Prop where
  fullName : m.fullName = s.fullName
  enums : m.enums.map Schema.Enum.fullName = s.enumNames
  fields : List.Forall₂ (Field.Loads s.entries known) s.message.fields m.fields
  oneofs : m.oneofs = oneofsOf s.fullName s.message.oneofs m.fields

theorem Site.Loads.mono {known known' : List String} (hknown : known ⊆ known') {s : Site} {m : Schema.Message}
    (h : s.Loads known m) : s.Loads known' m :=
  ⟨h.fullName, h.enums, h.fields.imp fun _ _ hf => hf.mono (List.Subset.refl _) hknown, h.oneofs⟩

structure File.Loads (known : List String) (d : File) (f : Schema.File) : Prop where
  name : f.name = d.name
  enums : f.enums.map Schema.Enum.fullName = d.enumNames
  messages : List.Forall₂ (Site.Loads known) d.sites f.allMessages

theorem File.Loads.mono {known known' : List String} (hknown : known ⊆ known') {d : File} {f : Schema.File}
    (h : d.Loads known f) : d.Loads known' f :=
  ⟨h.name, h.enums, h.messages.imp fun _ _ hs => hs.mono hknown⟩

/-- The types of a file are the ones that are declared. -/
theorem File.Loads.declares {known : List String} {d : File} {f : Schema.File} (h : d.Loads known f) :
    f.declares.map Prod.fst = d.typeNames := by
  have hmessages : f.allMessages.flatMap (fun m => m.declares.map Prod.fst) =
      d.sites.flatMap fun s => s.fullName :: s.enumNames := by
    apply flatMap_eq_of_forall₂
    apply h.messages.imp
    intro s m hm
    rw [Schema.Message.declares, List.map_cons, List.map_map, hm.fullName, ← hm.enums]
    rfl
  rw [Schema.File.declares, List.map_append, List.map_flatMap, hmessages, List.map_map, typeNames, ← h.enums]
  rfl

end Descriptor

/-! ### Growth of a registry -/

namespace Schema

open Descriptor

/-- Two registries for one request, both or none of which are complete. -/
def Registry.Same (r after : Registry) : Prop := after.request = r.request ∧ after.complete = r.complete

theorem Registry.Same.trans {r mid after : Registry} (h : r.Same mid) (h' : mid.Same after) : r.Same after :=
  ⟨h'.1.trans h.1, h'.2.trans h.2⟩

/-- A registry takes in files, types, type names that are mentioned and names of map entries. -/
structure Registry.Grows (files : List File) (types : Table Reference) (mentions entries : List String)
    (r after : Registry) : Prop where
  files_eq : after.files = files.foldl (fun table f => table.put f.name f) r.files
  declared : ∀ e ∈ after.types, e ∈ r.types ∨ e ∈ types
  known : ∀ name, (after.types.get? name).isSome = true ↔
    (r.types.get? name).isSome = true ∨ name ∈ types.map Prod.fst
  pending : ∃ more, after.pending = r.pending ++ more ∧ ∀ name, name ∈ more.map Prod.fst ↔ name ∈ mentions
  mapEntries : ∀ name, name ∈ after.mapEntries ↔ name ∈ r.mapEntries ∨ name ∈ entries

namespace Registry.Grows

variable {files files' : List File} {types types' : Table Reference} {mentions mentions' entries entries' : List String}
  {r mid after : Registry}

theorem refl (r : Registry) : Grows [] [] [] [] r r where
  files_eq := rfl
  declared := fun _ => .inl
  known := by simp
  pending := ⟨[], by simp⟩
  mapEntries := by simp

theorem trans (h : Grows files types mentions entries r mid) (h' : Grows files' types' mentions' entries' mid after) :
    Grows (files ++ files') (types ++ types') (mentions ++ mentions') (entries ++ entries') r after where
  files_eq := by rw [h'.files_eq, h.files_eq, List.foldl_append]
  declared := by
    intro e he
    rw [List.mem_append, ← or_assoc]
    exact (h'.declared e he).imp_left (h.declared e)
  known := by
    intro name
    rw [h'.known, h.known, List.map_append, List.mem_append, or_assoc]
  pending := by
    obtain ⟨more, heq, hmore⟩ := h.pending
    obtain ⟨more', heq', hmore'⟩ := h'.pending
    refine ⟨more ++ more', by rw [heq', heq, List.append_assoc], fun name => ?_⟩
    rw [List.map_append, List.mem_append, hmore, hmore', List.mem_append]
  mapEntries := by
    intro name
    rw [h'.mapEntries, h.mapEntries, List.mem_append, or_assoc]

/-- In what order things are listed does not matter. -/
theorem reorder (h : Grows files types mentions entries r after) (htypes : types.Perm types')
    (hmentions : mentions.Perm mentions') (hentries : entries.Perm entries') :
    Grows files types' mentions' entries' r after where
  files_eq := h.files_eq
  declared := by
    intro e he
    rw [← htypes.mem_iff]
    exact h.declared e he
  known := by
    intro name
    rw [h.known, (htypes.map Prod.fst).mem_iff]
  pending := by
    obtain ⟨more, heq, hmore⟩ := h.pending
    exact ⟨more, heq, fun name => by rw [hmore, hmentions.mem_iff]⟩
  mapEntries := by
    intro name
    rw [h.mapEntries, hentries.mem_iff]

theorem subset (h : Grows files types mentions entries r after) : r.mapEntries ⊆ after.mapEntries :=
  fun name hname => (h.mapEntries name).2 (.inl hname)

theorem type (r : Registry) (nextId : Nat) (name : String) (type : Reference) :
    Grows [] [(name, type)] [] [] r { r with nextId, types := r.types.put name type } where
  files_eq := rfl
  declared := by
    intro e he
    rw [List.mem_singleton]
    exact Table.mem_put he
  known := by
    intro other
    rw [Table.get?_put, List.map_singleton, List.mem_singleton]
    by_cases h : name = other
    · simp [h]
    · simp [h, Ne.symm h]
  pending := ⟨[], by simp⟩
  mapEntries := by simp

theorem entry (r : Registry) (name : String) : Grows [] [] [] [name] r { r with mapEntries := name :: r.mapEntries } where
  files_eq := rfl
  declared := fun _ => .inl
  known := by simp
  pending := ⟨[], by simp⟩
  mapEntries := by
    intro other
    rw [List.mem_cons, List.mem_singleton, or_comm]

theorem file (r : Registry) (f : File) (journal : Journal) :
    Grows [f] [] [] [] r { r with files := r.files.put f.name f, journal } where
  files_eq := rfl
  declared := fun _ => .inl
  known := by simp
  pending := ⟨[], by simp⟩
  mapEntries := by simp

end Registry.Grows

namespace Load

open Registry (Grows)

/-! ### Work that stops at the first fault -/

variable {α β : Type}

/-- Work on a registry that fails with the first of some faults, and comes to a result if there is none. -/
def Takes (faults : List Error) (r : Registry) (work : Load α) (Q : α → Registry → Prop) : Prop :=
  Contract (· = r) work (fun a after => faults = [] ∧ r.Same after ∧ Q a after)
    fun e after => faults.head? = some e ∧ r.Same after

namespace Takes

variable {faults : List Error} {r : Registry} {Q : α → Registry → Prop} {R : β → Registry → Prop}

theorem pure {a : α} (h : Q a r) : Takes [] r (Pure.pure a) Q := by
  apply Contract.pure
  intro s hs
  subst hs
  exact ⟨rfl, ⟨rfl, rfl⟩, h⟩

theorem lift {x : Except Error α} (h : ∀ a, x = .ok a → Q a r) : Takes (faultsOf x) r (liftM x) Q := by
  apply Contract.lift
  · intro s a hs hx
    subst hs hx
    exact ⟨rfl, ⟨rfl, rfl⟩, h a rfl⟩
  · intro s e hs hx
    subst hs hx
    exact ⟨rfl, rfl, rfl⟩

theorem post {work : Load α} {Q' : α → Registry → Prop} (h : Takes faults r work Q)
    (himp : ∀ a after, Q a after → Q' a after) : Takes faults r work Q' :=
  Contract.post h fun a after hend => ⟨hend.1, hend.2.1, himp a after hend.2.2⟩

theorem bind {first second : List Error} {x : Load α} {f : α → Load β} (hx : Takes first r x Q)
    (hf : ∀ a mid, Q a mid → Takes second mid (f a) R) : Takes (first ++ second) r (x >>= f) R := by
  refine Contract.bind (Contract.errors hx ?_) fun a => ?_
  · intro e after ⟨hhead, hsame⟩
    rw [List.head?_append, hhead]
    exact ⟨rfl, hsame⟩
  · intro mid ⟨hnil, hsame, hmid⟩
    rw [hnil, List.nil_append]
    have hend := hf a mid hmid mid rfl
    revert hend
    rcases (f a).run mid with ⟨result, after⟩
    cases result with
    | ok b => exact fun hend => ⟨hend.1, hsame.trans hend.2.1, hend.2.2⟩
    | error e => exact fun hend => ⟨hend.1, hsame.trans hend.2⟩

/-- Work without a fault of its own, and then other work. -/
theorem seq {x : Load α} {f : α → Load β} (hx : Takes [] r x Q) (hf : ∀ a mid, Q a mid → Takes faults mid (f a) R) :
    Takes faults r (x >>= f) R := bind hx hf

/-- Work whose result is passed on. -/
theorem map {x : Load α} {f : α → β} (hx : Takes faults r x Q) (hf : ∀ a after, Q a after → R (f a) after) :
    Takes faults r (x >>= fun a => Pure.pure (f a)) R := by
  rw [← List.append_nil faults]
  exact bind hx fun a mid hmid => pure (hf a mid hmid)

theorem get_bind {f : Registry → Load β} (h : Takes faults r (f r) R) : Takes faults r (MonadState.get >>= f) R :=
  Contract.get_bind fun _ hs => hs ▸ h

theorem modified {g : Registry → Registry} (hsame : r.Same (g r)) :
    Takes [] r (modify g) fun _ after => after = g r := by
  apply Contract.modify
  intro _ hs
  subst hs
  exact ⟨rfl, hsame, rfl⟩

theorem modify_bind {g : Registry → Registry} {f : Unit → Load β} (hsame : r.Same (g r))
    (h : Takes faults (g r) (f ()) R) : Takes faults r (modify g >>= f) R :=
  seq (modified hsame) fun _ _ hmid => hmid ▸ h

/-- Pieces of work each of which adds to a registry. -/
theorem mapM {work : α → Load β} (faults : α → List Error) (loads : List String → List String → α → β → Prop)
    (types : β → Table Reference) (mentions : β → List String) (entries : α → List String)
    (hmono : ∀ own own' known known' a b, own' ⊆ own → known ⊆ known' → loads own known a b → loads own' known' a b)
    (as : List α) (h : ∀ a ∈ as, ∀ r, Takes (faults a) r (work a) fun b after =>
      loads r.mapEntries after.mapEntries a b ∧ Grows [] (types b) (mentions b) (entries a) r after) (r : Registry) :
    Takes (as.flatMap faults) r (as.mapM work) fun bs after =>
      List.Forall₂ (loads r.mapEntries after.mapEntries) as bs ∧
        Grows [] (bs.flatMap types) (bs.flatMap mentions) (as.flatMap entries) r after := by
  induction as generalizing r with
  | nil => exact pure ⟨.nil, .refl r⟩
  | cons a as ih =>
    rw [List.forall_mem_cons] at h
    rw [List.mapM_cons, List.flatMap_cons]
    refine bind (h.1 r) fun b mid hb => (ih h.2 mid).map fun bs after hbs => ?_
    refine ⟨.cons ?_ (hbs.1.imp fun a b => ?_), hb.2.trans hbs.2⟩
    · exact hmono _ _ _ _ _ _ (List.Subset.refl _) hbs.2.subset hb.1
    · exact hmono _ _ _ _ a b hb.2.subset (List.Subset.refl _)

end Takes

/-! ### Taking in a file -/

private theorem takes_enum (package : String) (parents : List String) (d : Descriptor.Enum) (r : Registry) :
    Takes [] r (enum package parents d) fun e after =>
      e.fullName = qualify package parents d.name ∧ Grows [] [(e.fullName, .enum e)] [] [] r after :=
  Takes.modify_bind ⟨rfl, rfl⟩ (Takes.pure ⟨rfl, Grows.type r r.nextId _ _⟩)

theorem takes_enums (package : String) (parents : List String) (ds : List Descriptor.Enum) (r : Registry) :
    Takes [] r (ds.mapM (enum package parents)) fun es after =>
      es.map Enum.fullName = ds.map (fun d => qualify package parents d.name) ∧
        Grows [] (es.map fun e => (e.fullName, .enum e)) [] [] r after := by
  have hall := Takes.mapM (fun _ => []) (fun _ _ d e => e.fullName = qualify package parents d.name)
    (fun e => [(e.fullName, .enum e)]) (fun _ => []) (fun _ => []) (fun _ _ _ _ _ _ _ _ => id) ds
    (fun d _ => takes_enum package parents d) r
  rw [flatMap_const_nil] at hall
  apply hall.post
  intro es after ⟨hnames, hgrows⟩
  rw [flatMap_const_nil, flatMap_const_nil, ← List.map_eq_flatMap] at hgrows
  refine ⟨?_, hgrows⟩
  rw [← List.forall₂_eq_eq_eq, List.forall₂_map_left_iff, List.forall₂_map_right_iff]
  exact hnames.flip

theorem takes_refer (place : String) (kind : FieldKind) (typeName : Option String) (r : Registry) :
    Takes [] r (refer place kind typeName) fun _ after =>
      Grows [] [] (if kind = .message || kind = .enum then typeName else none).toList [] r after := by
  unfold refer
  split
  · rename_i name
    split
    · refine (Takes.modified ⟨rfl, rfl⟩).post fun _ after hafter => ?_
      subst hafter
      refine ⟨rfl, fun _ => .inl, ?_, ⟨[(name, place)], rfl, ?_⟩, ?_⟩
      · simp
      · simp
      · simp
    · exact Takes.pure (Grows.refl r)
  · rw [ite_self]
    exact Takes.pure (Grows.refl r)

private theorem getD_nonempty (s : String) : (nonempty s).getD "" = s := by
  unfold nonempty
  split
  · rename_i h
    exact (String.isEmpty_iff.1 h).symm
  · rfl

private theorem isMap_iff (known : List String) (d : Descriptor.Field) :
    ((classify d).1 = .message && d.label = .repeated && known.contains ((classify d).2.2.getD "")) = true ↔
      d.MayBeMap ∧ bareName d.typeName ∈ known := by
  unfold classify Field.MayBeMap
  cases d.type with
  | message => simp [getD_nonempty]
  | scalar type => simp
  | enum => simp
  | group => simp

private theorem takes_field (file fullName : String) (oneofs : List String) (d : Descriptor.Field) (r : Registry) :
    Takes (faultsOf (oneofOf file fullName oneofs d)) r (field file fullName oneofs d) fun f after =>
      d.Loads r.mapEntries after.mapEntries f ∧ Grows [] [] f.mention?.toList [] r after := by
  rw [field]
  apply Takes.get_bind
  rw [← List.append_nil (faultsOf _)]
  refine Takes.bind (Takes.lift (Q := fun _ mid => mid = r) fun _ _ => rfl) fun oneof mid hmid => ?_
  subst hmid
  refine (takes_refer _ _ _ _).map fun _ after hgrows => ⟨?_, hgrows⟩
  refine ⟨rfl, rfl, rfl, rfl, ?_⟩
  have hmap := isMap_iff mid.mapEntries d
  by_cases h : d.MayBeMap ∧ bareName d.typeName ∈ mid.mapEntries
  · exact .inl ⟨if_pos (hmap.2 h), h.1, hgrows.subset h.2⟩
  · exact .inr ⟨if_neg (mt hmap.1 h), h⟩

private theorem takes_fields (file fullName : String) (oneofs : List String) (ds : List Descriptor.Field)
    (r : Registry) :
    Takes (ds.flatMap fun d => faultsOf (oneofOf file fullName oneofs d)) r (ds.mapM (field file fullName oneofs))
      fun fs after => List.Forall₂ (Field.Loads r.mapEntries after.mapEntries) ds fs ∧
        Grows [] [] (fs.filterMap Field.mention?) [] r after := by
  have hall := Takes.mapM _ Field.Loads (fun _ => []) (fun f : Field => f.mention?.toList) (fun _ => [])
    (fun _ _ _ _ _ _ hown hknown hf => hf.mono hown hknown) ds (fun d _ => takes_field file fullName oneofs d) r
  apply hall.post
  intro fs after ⟨hfields, hgrows⟩
  rw [flatMap_const_nil, flatMap_const_nil, ← List.filterMap_eq_flatMap_toList] at hgrows
  exact ⟨hfields, hgrows⟩

/-- Messages come out of what is declared, and a registry grows by what they declare and mention. -/
def Taken (sites : List Site) (entries : List String) (ms : List Message) (r after : Registry) : Prop :=
  List.Forall₂ (Site.Loads after.mapEntries) sites (unstack ms) ∧
    Grows [] ((unstack ms).flatMap Message.declares) ((unstack ms).flatMap Message.mentions) entries r after

mutual

theorem takes_message (file package : String) (parents : List String) (r : Registry) : (d : Descriptor.Message) →
    Takes (d.faults file package parents) r (message file package parents d) fun m after =>
      Taken (d.sites package parents) ((d.sites package parents).flatMap Site.entries) [m] r after
  | ⟨name, fields, nested, enums, oneofs, options⟩ => by
    rw [message, Descriptor.Message.faults, Descriptor.Message.sites]
    apply Takes.get_bind
    dsimp only
    apply Takes.modify_bind ⟨rfl, rfl⟩
    refine Takes.bind (takes_messagesIn file package (parents ++ [name]) _ nested) fun ms mid hms => ?_
    refine Takes.seq (takes_enums _ _ _ _) fun es mid' hes => ?_
    refine Takes.map (takes_fields _ _ _ _ _) fun fs after hfs => ?_
    -- the entries inside the message are known by the time that its fields are looked at
    have hlater : mid.mapEntries ⊆ after.mapEntries := List.Subset.trans hes.2.subset hfs.2.subset
    have hown : entryNames package (parents ++ [name]) nested ⊆ mid'.mapEntries := by
      intro entry hentry
      exact hes.2.subset ((hms.2.mapEntries entry).2 (.inr (List.mem_append_left _ hentry)))
    rw [Taken, unstack_cons, unstack.eq_1, List.append_nil]
    refine ⟨.cons ⟨rfl, hes.1, ?_, rfl⟩ (hms.1.imp fun _ _ hs => hs.mono hlater), ?_⟩
    · exact hfs.1.imp fun _ _ hf => hf.mono hown (List.Subset.refl _)
    · apply ((Grows.type r _ _ _).trans (hms.2.trans (hes.2.trans hfs.2))).reorder
      · simpa [Message.declares] using List.perm_append_comm
      · simpa [Message.mentions] using List.perm_append_comm
      · simp [Site.entries, Site.inside]

theorem takes_messagesIn (file package : String) (parents : List String) (r : Registry) :
    (ds : List Descriptor.Message) → Takes (faultsIn file package parents ds) r (messagesIn file package parents ds)
      fun ms after => Taken (sitesIn package parents ds)
        (entryNames package parents ds ++ (sitesIn package parents ds).flatMap Site.entries) ms r after
  | [] => by
    rw [messagesIn, faultsIn, sitesIn]
    apply Takes.pure
    rw [Taken, unstack]
    exact ⟨.nil, Grows.refl r⟩
  | d :: rest => by
    rw [messagesIn, faultsIn, sitesIn]
    split
    · apply Takes.modify_bind ⟨rfl, rfl⟩
      refine (takes_messagesIn file package parents _ rest).post fun ms after hms => ⟨hms.1, ?_⟩
      have hentries : entryNames package parents (d :: rest) =
          qualify package parents d.name :: entryNames package parents rest := by
        rw [entryNames, List.filter_cons_of_pos ‹_›, List.map_cons, entryNames]
      rw [hentries]
      exact (Grows.entry r _).trans hms.2
    · refine Takes.bind (takes_message file package parents r d) fun m mid hm => ?_
      refine Takes.map (takes_messagesIn file package parents mid rest) fun ms after hms => ?_
      have hentries : entryNames package parents (d :: rest) = entryNames package parents rest := by
        rw [entryNames, List.filter_cons_of_neg ‹_›, entryNames]
      rw [Taken, ← List.singleton_append, unstack_append, hentries]
      refine ⟨List.rel_append (hm.1.imp fun _ _ hs => hs.mono hms.2.subset) hms.1, ?_⟩
      apply (hm.2.trans hms.2).reorder
      · rw [List.flatMap_append]
      · rw [List.flatMap_append]
      · rw [List.flatMap_append, ← List.append_assoc, ← List.append_assoc]
        exact List.perm_append_comm.append_right _

end

private theorem takes_declarations (d : Descriptor.File) (r : Registry) :
    Takes (faultsOf (dialectOf d) ++ d.messages.flatMap (Message.faults d.name d.package [])) r (declarations d)
      fun f after => d.Loads after.mapEntries f ∧ Grows [] f.declares f.mentions d.entries r after := by
  rw [declarations]
  refine Takes.bind (Takes.lift (Q := fun _ mid => mid = r) fun _ _ => rfl) fun dialect mid hmid => ?_
  subst hmid
  refine Takes.seq (takes_enums _ _ _ _) fun es mid' hes => ?_
  have hmessages := Takes.mapM _ (fun _ known d' m => List.Forall₂ (Site.Loads known) (d'.sites d.package []) (unstack [m]))
    (fun m => (unstack [m]).flatMap Message.declares) (fun m => (unstack [m]).flatMap Message.mentions)
    (fun d' => (d'.sites d.package []).flatMap Site.entries)
    (fun _ _ _ _ _ _ _ hknown hs => hs.imp fun _ _ hm => hm.mono hknown) d.messages
    (fun d' _ r' => takes_message d.name d.package [] r' d') mid'
  refine hmessages.map fun ms after hms => ?_
  have hunstack : unstack ms = ms.flatMap fun m => unstack [m] := unstack_eq_flatMap ms
  refine ⟨⟨rfl, hes.1, ?_⟩, ?_⟩
  · rw [Schema.File.allMessages, hunstack]
    exact List.rel_flatMap hms.1 fun _ _ => id
  · rw [Schema.File.declares, Schema.File.mentions, Schema.File.allMessages, hunstack, List.flatMap_assoc,
      List.flatMap_assoc, Descriptor.File.entries, Descriptor.File.sites, List.flatMap_assoc]
    exact hes.2.trans hms.2

private theorem head?_missing (known : List String) (d : Descriptor.File) : (d.missing known).head? =
    (d.dependencies.find? fun name => !known.contains name).map fun name => .unresolvedDependency name d.name := by
  rw [File.missing, List.head?_map, List.head?_filter]

private theorem takes_file (known : List String) (d : Descriptor.File) (r : Registry) :
    Takes (d.faults known) r (file known d) fun _ after =>
      ∃ f, d.Loads after.mapEntries f ∧ Grows [f] f.declares f.mentions d.entries r after := by
  have hhead := head?_missing known d
  rw [file, File.faults]
  dsimp only
  split
  · -- the file is not looked into any further
    rename_i missing hmissing
    rw [hmissing] at hhead
    refine Contract.throw_bind fun s hs => ⟨?_, hs ▸ ⟨rfl, rfl⟩⟩
    rw [List.head?_append, hhead]
    rfl
  · rename_i hnone
    rw [Option.eq_none_iff_forall_ne_some.2 hnone] at hhead
    rw [List.head?_eq_none_iff.1 hhead, List.nil_append, ← List.append_nil (_ ++ _)]
    refine Takes.bind (takes_declarations d r) fun f mid hf => ?_
    refine (Takes.modified ⟨rfl, rfl⟩).post fun _ after hafter => ?_
    subst hafter
    have hgrows := fun journal => hf.2.trans (Grows.file mid f journal)
    simp only [List.append_nil, List.nil_append] at hgrows
    rw [← hf.1.name]
    exact ⟨f, hf.1, hgrows _⟩

theorem takes_files (known : List String) (ds : List Descriptor.File) (r : Registry) :
    Takes (ds.flatMap (File.faults known)) r (ds.forM (file known)) fun _ after =>
      ∃ fs, List.Forall₂ (File.Loads after.mapEntries) ds fs ∧
        Grows fs (fs.flatMap File.declares) (fs.flatMap File.mentions) (ds.flatMap Descriptor.File.entries) r after := by
  induction ds generalizing r with
  | nil => exact Takes.pure ⟨[], .nil, Grows.refl r⟩
  | cons d ds ih =>
    rw [List.forM, List.flatMap_cons]
    refine Takes.bind (takes_file known d r) fun _ mid hd => (ih mid).post fun _ after hds => ?_
    obtain ⟨f, hf, hgrows⟩ := hd
    obtain ⟨fs, hfs, hmore⟩ := hds
    exact ⟨f :: fs, .cons (hf.mono hmore.subset) hfs, hgrows.trans hmore⟩

end Load

end Schema

end MessageCodec
