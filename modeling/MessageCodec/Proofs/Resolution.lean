import MessageCodec.Proofs.Intake

/-!
# Which requests can be loaded

A request is defective if one of its files depends on a file that is not there or is written in a dialect that does not
exist, if a field counts oneofs beyond those of its message, or if a field refers to a type that is declared nowhere.
Loading fails for just these requests. Any other request is loaded whole: what is declared in one place may be
referred to from every other, before it and after it and in every file.
-/

namespace MessageCodec

open Schema (unstack)
open Schema.Load

namespace Descriptor

/-! ### Closed requests -/

namespace Site

/-- A repeated field of a map entry that is declared in the same message. -/
def IsMap (s : Site) (d : Field) : Prop := d.MayBeMap ∧ bareName d.typeName ∈ s.entries

/-- A field that refers to a message or an enum. -/
def Refers (s : Site) (d : Field) : Prop :=
  (d.type = .message ∨ d.type = .enum) ∧ bareName d.typeName ≠ "" ∧ ¬ s.IsMap d

instance (d : Field) : Decidable d.MayBeMap := inferInstanceAs (Decidable (_ ∧ _))

instance (s : Site) (d : Field) : Decidable (s.IsMap d) := inferInstanceAs (Decidable (_ ∧ _))

instance (s : Site) (d : Field) : Decidable (s.Refers d) := inferInstanceAs (Decidable (_ ∧ _ ∧ _))

end Site

namespace Request

def names (request : Request) : List String := request.files.map File.name

def faults (request : Request) : List Error := request.files.flatMap (File.faults request.names)

def sites (request : Request) : List Site := request.files.flatMap File.sites

def typeNames (request : Request) : List String := request.files.flatMap File.typeNames

def entries (request : Request) : List String := request.files.flatMap File.entries

/-- No oneof is counted from the end, and map entries are used as such only where they are declared. -/
structure Admissible (request : Request) : Prop where
  oneofs : ∀ s ∈ request.sites, ∀ d ∈ s.message.fields, ∀ index ∈ d.oneofIndex, 0 ≤ index
  entries : ∀ s ∈ request.sites, ∀ d ∈ s.message.fields, d.MayBeMap → bareName d.typeName ≠ "" →
    bareName d.typeName ∈ request.entries → bareName d.typeName ∈ s.entries

/-- What keeps a request from being loaded. -/
inductive Defective (request : Request) : Prop
  | dependency {d : File} (hd : d ∈ request.files) {name : String} (hname : name ∈ d.dependencies)
      (hmissing : ∀ other ∈ request.files, other.name ≠ name)
  | dialect {d : File} (hd : d ∈ request.files) (hdialect : d.dialect ∉ ["", "proto2", "proto3", "editions"])
  | oneof {s : Site} (hs : s ∈ request.sites) {d : Field} (hd : d ∈ s.message.fields) {index : Int}
      (hindex : d.oneofIndex = some index) (hrange : s.message.oneofs.length ≤ index)
  | reference {s : Site} (hs : s ∈ request.sites) {d : Field} (hd : d ∈ s.message.fields) (hrefers : s.Refers d)
      (hmissing : bareName d.typeName ∉ request.typeNames)

end Request

section

variable {request other : Request} (hperm : other.files.Perm request.files)

include hperm

theorem Request.mem_sites_of_perm {s : Site} : s ∈ other.sites ↔ s ∈ request.sites := (hperm.flatMap_right _).mem_iff

theorem Request.mem_typeNames_of_perm {name : String} : name ∈ other.typeNames ↔ name ∈ request.typeNames :=
  (hperm.flatMap_right _).mem_iff

private theorem Request.mem_entries_of_perm {name : String} : name ∈ other.entries ↔ name ∈ request.entries :=
  (hperm.flatMap_right _).mem_iff

theorem Request.Admissible.of_perm (h : request.Admissible) : other.Admissible where
  oneofs := by
    intro s hs
    exact h.oneofs s ((mem_sites_of_perm hperm).1 hs)
  entries := by
    intro s hs d hd hmay hne hmem
    exact h.entries s ((mem_sites_of_perm hperm).1 hs) d hd hmay hne ((mem_entries_of_perm hperm).1 hmem)

theorem Request.Defective.of_perm (h : request.Defective) : other.Defective := by
  cases h with
  | dependency hd hname hmissing =>
    exact .dependency (hperm.mem_iff.2 hd) hname fun d hd => hmissing d (hperm.mem_iff.1 hd)
  | dialect hd hdialect => exact .dialect (hperm.mem_iff.2 hd) hdialect
  | oneof hs hd hindex hrange => exact .oneof ((mem_sites_of_perm hperm).2 hs) hd hindex hrange
  | reference hs hd hrefers hmissing =>
    exact .reference ((mem_sites_of_perm hperm).2 hs) hd hrefers fun hmem => hmissing ((mem_typeNames_of_perm hperm).1 hmem)

end

/-! ### Faults are defects -/

theorem mem_faultsOf {α : Type} {x : Except Error α} {e : Error} : e ∈ faultsOf x ↔ x = .error e := by
  cases x with
  | ok a => simp [faultsOf]
  | error e' => simp [faultsOf, eq_comm]

mutual

theorem mem_faults {file package : String} {e : Error} (parents : List String) : (d : Message) →
    (e ∈ d.faults file package parents ↔ ∃ s ∈ d.sites package parents, ∃ f ∈ s.message.fields,
      oneofOf file s.fullName s.message.oneofs f = .error e)
  | ⟨name, fields, nested, enums, oneofs, options⟩ => by
    rw [Message.faults, Message.sites, List.mem_append, mem_faultsIn (parents ++ [name]) nested, List.mem_flatMap, or_comm]
    simp only [mem_faultsOf, List.mem_cons, or_and_right, exists_or, exists_eq_left]
    rfl

theorem mem_faultsIn {file package : String} {e : Error} (parents : List String) : (ds : List Message) →
    (e ∈ faultsIn file package parents ds ↔ ∃ s ∈ sitesIn package parents ds, ∃ f ∈ s.message.fields,
      oneofOf file s.fullName s.message.oneofs f = .error e)
  | [] => by simp [faultsIn, sitesIn]
  | d :: rest => by
    rw [faultsIn, sitesIn]
    split
    · exact mem_faultsIn parents rest
    · rw [List.mem_append, mem_faults parents d, mem_faultsIn parents rest]
      simp only [List.mem_append, or_and_right, exists_or]

end

theorem oneofOf_eq_error {file fullName : String} {oneofs : List String} {d : Field} {e : Error}
    (hsign : ∀ index ∈ d.oneofIndex, 0 ≤ index) :
    oneofOf file fullName oneofs d = .error e ↔ ∃ index, d.oneofIndex = some index ∧ oneofs.length ≤ index ∧
      e = .missingOneof file (fullName ++ "." ++ d.name) index := by
  rw [oneofOf]
  cases hindex : d.oneofIndex with
  | none => simp
  | some index =>
    have hpos := hsign index hindex
    dsimp only
    split
    · rename_i hrange
      simp [hrange, eq_comm]
    · rename_i hrange
      have hplace : oneofPlace? oneofs.length index = some index.toNat := by
        rw [oneofPlace?, if_pos hpos, if_pos (by omega)]
      have hlt : index.toNat < oneofs.length := by omega
      rw [hplace, Option.bind_some, List.getElem?_eq_getElem hlt]
      simp
      omega

private theorem ofName?_eq_none {name : String} :
    Schema.Dialect.ofName? name = none ↔ name ∉ ["proto2", "proto3", "editions"] := by
  unfold Schema.Dialect.ofName?
  split
  · simp
  · simp
  · simp
  · rename_i hproto2 hproto3 heditions
    simp only [List.mem_cons, List.not_mem_nil, or_false, not_or, true_iff]
    exact ⟨hproto2, hproto3, heditions⟩

theorem dialectOf_eq_error {d : File} {e : Error} : dialectOf d = .error e ↔
    d.dialect ∉ ["", "proto2", "proto3", "editions"] ∧ e = .unsupportedSyntax d.name d.dialect := by
  rw [dialectOf, List.mem_cons, not_or, ← ofName?_eq_none]
  split
  · rename_i hempty
    simp [String.isEmpty_iff.1 hempty]
  · rename_i hempty
    rw [String.isEmpty_iff] at hempty
    cases hname : Schema.Dialect.ofName? d.dialect with
    | some dialect => simp
    | none => simp [hempty, eq_comm]

theorem mem_fileFaults {known : List String} {d : File} {e : Error} : e ∈ d.faults known ↔
    (∃ name ∈ d.dependencies, name ∉ known ∧ .unresolvedDependency name d.name = e) ∨ dialectOf d = .error e ∨
      ∃ s ∈ d.sites, ∃ f ∈ s.message.fields, oneofOf d.name s.fullName s.message.oneofs f = .error e := by
  rw [File.faults, List.mem_append, List.mem_append, mem_faultsOf]
  refine or_congr ?_ (or_congr Iff.rfl ?_)
  · simp [File.missing, and_assoc]
  · simp only [File.sites, List.mem_flatMap, mem_faults]
    constructor
    · rintro ⟨m, hm, s, hs, hfault⟩
      exact ⟨s, ⟨m, hm, hs⟩, hfault⟩
    · rintro ⟨s, ⟨m, hm, hs⟩, hfault⟩
      exact ⟨m, hm, s, hs, hfault⟩

namespace Request

variable {request : Request}

theorem mem_sites {s : Site} : s ∈ request.sites ↔ ∃ d ∈ request.files, s ∈ d.sites := List.mem_flatMap

theorem not_mem_names {name : String} : name ∉ request.names ↔ ∀ d ∈ request.files, d.name ≠ name := by
  simp [names]

/-- A fault is a defect, and an error of the schema. -/
theorem Admissible.of_fault (h : request.Admissible) {e : Error} (he : e ∈ request.faults) :
    e.kind = .schema ∧ request.Defective := by
  obtain ⟨d, hd, hfault⟩ := List.mem_flatMap.1 he
  rcases mem_fileFaults.1 hfault with ⟨name, hname, hmissing, rfl⟩ | hdialect | ⟨s, hs, f, hf, herror⟩
  · exact ⟨rfl, .dependency hd hname (not_mem_names.1 hmissing)⟩
  · obtain ⟨hunknown, rfl⟩ := dialectOf_eq_error.1 hdialect
    exact ⟨rfl, .dialect hd hunknown⟩
  · have hs' := mem_sites.2 ⟨d, hd, hs⟩
    obtain ⟨index, hindex, hrange, rfl⟩ := (oneofOf_eq_error (h.oneofs s hs' f hf)).1 herror
    exact ⟨rfl, .oneof hs' hf hindex hrange⟩

/-- A defect is a fault, or a reference to nothing. -/
theorem Admissible.of_defective (h : request.Admissible) (hdefective : request.Defective) : request.faults ≠ [] ∨
    ∃ s ∈ request.sites, ∃ d ∈ s.message.fields, s.Refers d ∧ bareName d.typeName ∉ request.typeNames := by
  have hfault : ∀ d ∈ request.files, ∀ e, e ∈ d.faults request.names → request.faults ≠ [] := by
    intro d hd e he
    exact List.ne_nil_of_mem (List.mem_flatMap.2 ⟨d, hd, he⟩)
  cases hdefective with
  | @dependency d hd name hname hmissing =>
    exact .inl (hfault d hd _ (mem_fileFaults.2 (.inl ⟨name, hname, not_mem_names.2 hmissing, rfl⟩)))
  | @dialect d hd hdialect =>
    exact .inl (hfault d hd _ (mem_fileFaults.2 (.inr (.inl (dialectOf_eq_error.2 ⟨hdialect, rfl⟩)))))
  | @oneof s hs f hf index hindex hrange =>
    obtain ⟨d, hd, hs'⟩ := mem_sites.1 hs
    have herror : oneofOf d.name s.fullName s.message.oneofs f = .error _ :=
      (oneofOf_eq_error (h.oneofs s hs f hf)).2 ⟨index, hindex, hrange, rfl⟩
    exact .inl (hfault d hd _ (mem_fileFaults.2 (.inr (.inr ⟨s, hs', f, hf, herror⟩))))
  | @reference s hs f hf hrefers hmissing => exact .inr ⟨s, hs, f, hf, hrefers, hmissing⟩

end Request

end Descriptor

/-! ### References -/

namespace Schema

variable {types : Table Reference}

theorem linkIn_eq_map (ms : List Message) : linkIn types ms = ms.map (Message.link types) := by
  induction ms with
  | nil => rw [linkIn, List.map_nil]
  | cons m ms ih => rw [linkIn, ih, List.map_cons]

theorem link_eq (m : Message) : m.link types =
    { m with fields := m.fields.map (Field.link types), nested := m.nested.map (Message.link types) } := by
  obtain ⟨id, name, fullName, fields, nested, enums, oneofs, options, mapEntry⟩ := m
  rw [Message.link, linkIn_eq_map]

private theorem unstack_link (ms : List Message) :
    unstack (ms.map (Message.link types)) = (unstack ms).map (Message.link types) := by
  induction ms using unstack.induct with
  | case1 => rw [List.map_nil, unstack, List.map_nil]
  | case2 m rest ih =>
    have hnested : (m.link types).nested = m.nested.map (Message.link types) := by rw [link_eq]
    rw [List.map_cons, unstack, hnested, ← List.map_append, ih, unstack, List.map_cons]

theorem File.allMessages_link (f : File) : (f.link types).allMessages = f.allMessages.map (Message.link types) := by
  rw [File.link, allMessages, allMessages, linkIn_eq_map, unstack_link]

/-- What a file declares is the same before and after references are resolved. -/
theorem File.declares_link (f : File) : (f.link types).declares = f.declares := by
  have hmessage : ∀ m : Message, (m.link types).declares = m.declares := by
    intro m
    rw [link_eq]
    rfl
  rw [declares, declares, allMessages_link, List.flatMap_map]
  simp only [hmessage]
  rfl

theorem Field.name_link (f : Field) : (f.link types).name = f.name := by
  unfold link
  split <;> rfl

theorem Field.kind_link (f : Field) : (f.link types).kind = f.kind := by
  unfold link
  split <;> rfl

theorem Field.resolved_link {f : Field} (h : f.resolved = none) :
    (f.link types).resolved = f.mention?.bind types.get? := by
  rw [link, mention?]
  split
  · rfl
  · exact h

end Schema

namespace Descriptor

private theorem nonempty_eq_some {text name : String} : nonempty text = some name ↔ text ≠ "" ∧ text = name := by
  unfold nonempty
  split
  · rename_i h
    simp [String.isEmpty_iff.1 h]
  · rename_i h
    rw [String.isEmpty_iff] at h
    simp [h]

/-- A field that is taken in mentions a type if it was declared to refer to it. -/
theorem Request.Admissible.mention?_eq_some {request : Request} (h : request.Admissible) {s : Site}
    (hs : s ∈ request.sites) {d : Field} (hd : d ∈ s.message.fields) {known : List String} (hknown : known ⊆ request.entries)
    {f : Schema.Field} (hf : d.Loads s.entries known f) {name : String} :
    f.mention? = some name ↔ s.Refers d ∧ bareName d.typeName = name := by
  rw [Schema.Field.mention?, Site.Refers]
  rcases hf.kind with ⟨hkind, hmay, hmem⟩ | ⟨hkind, hnot⟩
  · rw [hkind, if_neg (by decide)]
    constructor
    · intro hsome
      cases hsome
    · -- a map entry that is known is one of the request, so the field stands where it is declared
      rintro ⟨⟨-, hne, hmap⟩, -⟩
      exact absurd ⟨hmay, h.entries s hs d hd hmay hne (hknown hmem)⟩ hmap
  · rw [hkind, hf.typeName]
    unfold classify
    cases htype : d.type with
    | scalar type => simp
    | enum => simp [nonempty_eq_some, hnot, Site.IsMap]
    | message => simp [nonempty_eq_some, hnot, Site.IsMap]
    | group => simp

end Descriptor

namespace Schema

open Descriptor

namespace Registry

/-- The first type name that no type is known by, with the place that mentions it. -/
def unresolved? (r : Registry) : Option (String × String) := r.pending.find? fun p => (r.types.get? p.1).isNone

def linked (r : Registry) : Registry :=
  { r with files := r.files.map fun e => (e.1, e.2.link r.types), complete := true }

/-- Files come out of all those of a request. -/
def Filled (request : Request) (fs : List File) (r after : Registry) : Prop :=
  List.Forall₂ (File.Loads after.mapEntries) request.files fs ∧
    Grows fs (fs.flatMap File.declares) (fs.flatMap File.mentions) request.entries r after

private theorem contract_resolve (r : Registry) : Contract (· = r) resolve
    (fun _ after => r.unresolved? = none ∧ after = r.linked)
    fun e after => after = r ∧ ∃ p, r.unresolved? = some p ∧ e = .unresolvedType p.1 p.2 := by
  rw [resolve]
  refine Contract.get_bind fun s hs => ?_
  subst hs
  dsimp only
  split
  · rename_i typeName place hfound
    exact Contract.throw_bind fun s hs => ⟨hs, _, hfound, rfl⟩
  · rename_i hnone
    refine Contract.set fun _ _ => ⟨?_, rfl⟩
    exact Option.eq_none_iff_forall_ne_some.2 fun p hp => hnone p.1 p.2 hp

/-- What becomes of a registry that is not complete: a fault of the request stops it, or all the files are taken in
and then the references are looked at. -/
theorem contract_ensure {r : Registry} (hincomplete : r.complete = false) :
    Contract (· = r) ensure
      (fun _ after => r.request.faults = [] ∧
        ∃ fs mid, Filled r.request fs r mid ∧ mid.unresolved? = none ∧ after = mid.linked)
      fun e after => r.Same after ∧ (r.request.faults.head? = some e ∨
        r.request.faults = [] ∧ ∃ fs, Filled r.request fs r after ∧
          ∃ p, after.unresolved? = some p ∧ e = .unresolvedType p.1 p.2) := by
  rw [ensure]
  refine Contract.get_bind fun s hs => ?_
  subst hs
  rw [hincomplete, Bool.not_false, if_pos rfl]
  refine Contract.bind (Contract.errors (takes_files _ _ s) fun e after herror => ⟨herror.2, .inl herror.1⟩) fun _ => ?_
  intro mid ⟨hnil, hsame, fs, hfilled⟩
  have hend := contract_resolve mid mid rfl
  revert hend
  rcases resolve.run mid with ⟨result, after⟩
  cases result with
  | ok _ =>
    intro ⟨hnone, hafter⟩
    exact ⟨hnil, fs, mid, hfilled, hnone, hafter⟩
  | error e =>
    rintro ⟨rfl, hfound⟩
    exact ⟨hsame, .inr ⟨hnil, fs, hfilled, hfound⟩⟩

variable {request : Request} {fs : List File} {r after : Registry}

/-- The names of all types are known by the time that references are looked at. -/
theorem Filled.known (h : Filled request fs r after) {name : String} :
    (after.types.get? name).isSome = true ↔ (r.types.get? name).isSome = true ∨ name ∈ request.typeNames := by
  have hnames : (fs.flatMap File.declares).map Prod.fst = request.typeNames := by
    rw [List.map_flatMap]
    exact flatMap_eq_of_forall₂ (h.1.imp fun _ _ hf => hf.declares)
  rw [h.2.known, hnames]

/-- The messages of all files that come out of a request. -/
theorem Filled.messages (h : Filled request fs r after) :
    List.Forall₂ (Site.Loads after.mapEntries) request.sites (fs.flatMap File.allMessages) :=
  List.rel_flatMap h.1 fun _ _ hf => hf.messages

theorem Filled.mapEntries_subset (h : Filled request fs (new request) after) : after.mapEntries ⊆ request.entries := by
  intro entry hentry
  exact ((h.2.mapEntries entry).1 hentry).resolve_left List.not_mem_nil

private theorem Filled.mem_mentions (h : Filled request fs (new request) after) (hadmissible : request.Admissible)
    {name : String} : name ∈ fs.flatMap File.mentions ↔
      ∃ s ∈ request.sites, ∃ d ∈ s.message.fields, s.Refers d ∧ bareName d.typeName = name := by
  have hall : fs.flatMap File.mentions = (fs.flatMap File.allMessages).flatMap Message.mentions := by
    rw [List.flatMap_assoc]
    rfl
  rw [hall, List.mem_flatMap]
  simp only [Message.mentions, List.mem_filterMap]
  apply exists_mem_iff_of_forall₂ h.messages
  intro s hs m hm
  apply exists_mem_iff_of_forall₂ hm.fields
  intro d hd f hf
  exact hadmissible.mention?_eq_some hs hd h.mapEntries_subset hf

/-- From an empty registry, all references are resolved if all that is referred to is declared. -/
theorem Filled.unresolved?_eq_none (h : Filled request fs (new request) after) (hadmissible : request.Admissible) :
    after.unresolved? = none ↔
      ∀ s ∈ request.sites, ∀ d ∈ s.message.fields, s.Refers d → bareName d.typeName ∈ request.typeNames := by
  obtain ⟨more, hpending, hmore⟩ := h.2.pending
  have hknown : ∀ name, (after.types.get? name).isSome = true ↔ name ∈ request.typeNames := by
    intro name
    rw [h.known]
    exact or_iff_right Bool.false_ne_true
  have hall : after.unresolved? = none ↔ ∀ name ∈ more.map Prod.fst, name ∈ request.typeNames := by
    rw [unresolved?, hpending, List.find?_eq_none, List.forall_mem_map]
    simp only [← hknown, Option.isNone_iff_eq_none, ← Option.isSome_iff_ne_none]
    rfl
  rw [hall]
  constructor
  · intro hdeclared s hs d hd hrefers
    exact hdeclared _ ((hmore _).2 ((h.mem_mentions hadmissible).2 ⟨s, hs, d, hd, hrefers, rfl⟩))
  · intro hdeclared name hname
    obtain ⟨s, hs, d, hd, hrefers, rfl⟩ := (h.mem_mentions hadmissible).1 ((hmore name).1 hname)
    exact hdeclared s hs d hd hrefers

end Registry

end Schema

/-! ### What is loaded -/

namespace Descriptor

/-- A message comes out with its references resolved, each to a type of the name that is referred to. -/
structure Site.Resolved (declared : Table Schema.Reference) (s : Site) (m : Schema.Message) : Prop where
  fullName : m.fullName = s.fullName
  fields : List.Forall₂ (fun d f => f.name = d.name ∧
      (s.Refers d → ∃ type, f.resolved = some type ∧ type.fullName = bareName d.typeName ∧
        (bareName d.typeName, type) ∈ declared) ∧
      (s.IsMap d → f.kind = .map ∧ f.resolved = none)) s.message.fields m.fields
  oneofs : m.oneofs = s.message.oneofs.mapIdx fun i name =>
    ⟨name, s.fullName ++ "." ++ name, (s.message.fields.filter fun d => d.oneofIndex = some (i : Int)).map Field.name⟩

/-- Files come out of those of a request, with the references in them resolved. -/
def Request.Loaded (request : Request) (fs : List Schema.File) : Prop :=
  List.Forall₂ (fun (d : File) (f : Schema.File) => f.name = d.name ∧
    List.Forall₂ (Site.Resolved (fs.flatMap Schema.File.declares)) d.sites f.allMessages) request.files fs

private theorem oneofPlace?_eq_some {count i : Nat} (hi : i < count) {index : Int} (hsign : 0 ≤ index) :
    oneofPlace? count index = some i ↔ index = i := by
  rw [oneofPlace?, if_pos hsign]
  split
  · rw [Option.some.injEq]
    omega
  · simp
    omega

private theorem members_eq {own known : List String} {count i : Nat} (hi : i < count) {ds : List Field}
    (hsign : ∀ d ∈ ds, ∀ index ∈ d.oneofIndex, 0 ≤ index) {fs : List Schema.Field}
    (h : List.Forall₂ (Field.Loads own known) ds fs) :
    (fs.filter fun f => f.oneofIndex.bind (oneofPlace? count) = some i).map Schema.Field.name =
      (ds.filter fun d => d.oneofIndex = some (i : Int)).map Field.name := by
  induction h with
  | nil => rfl
  | @cons d f ds fs hf _ ih =>
    rw [List.forall_mem_cons] at hsign
    have hsame : f.oneofIndex.bind (oneofPlace? count) = some i ↔ d.oneofIndex = some (i : Int) := by
      rw [hf.oneofIndex]
      cases hindex : d.oneofIndex with
      | none => simp
      | some index => rw [Option.bind_some, oneofPlace?_eq_some hi (hsign.1 index hindex), Option.some.injEq]
    simp only [List.filter_cons, hsame]
    split
    · rw [List.map_cons, List.map_cons, ih hsign.2, hf.name]
    · exact ih hsign.2

/-- A message with its references resolved in a table that has all it refers to. -/
theorem Request.Admissible.resolved_link {request : Request} (h : request.Admissible) {s : Site} (hs : s ∈ request.sites)
    {known : List String} (hknown : known ⊆ request.entries) {m : Schema.Message} (hm : s.Loads known m)
    {types declared : Table Schema.Reference}
    (htypes : ∀ d ∈ s.message.fields, s.Refers d → ∃ type, types.get? (bareName d.typeName) = some type ∧
      type.fullName = bareName d.typeName ∧ (bareName d.typeName, type) ∈ declared) :
    s.Resolved declared (m.link types) := by
  rw [Schema.link_eq]
  refine ⟨hm.fullName, ?_, ?_⟩
  · rw [List.forall₂_map_right_iff]
    apply (forall₂_mem hm.fields).imp
    intro d f ⟨hd, hf⟩
    have hmention : ∀ name, f.mention? = some name ↔ s.Refers d ∧ bareName d.typeName = name :=
      fun _ => h.mention?_eq_some hs hd hknown hf
    rw [Schema.Field.resolved_link hf.resolved, Schema.Field.name_link, Schema.Field.kind_link]
    refine ⟨hf.name, fun hrefers => ?_, fun hmap => ⟨?_, ?_⟩⟩
    · rw [(hmention _).2 ⟨hrefers, rfl⟩, Option.bind_some]
      exact htypes d hd hrefers
    · exact (hf.kind.resolve_right fun hother => hother.2 hmap).1
    · cases hname : f.mention? with
      | none => rfl
      | some name => exact absurd hmap ((hmention name).1 hname).1.2.2
  · show m.oneofs = _
    rw [hm.oneofs, oneofsOf, List.mapIdx_eq_mapIdx_iff]
    intro i hi
    dsimp only
    rw [members_eq hi (h.oneofs s hs) hm.fields]

end Descriptor

namespace Schema

open Descriptor

namespace Registry

variable {request : Request} {fs : List File} {mid : Registry}

private theorem fullName_of_mem_declares {f : File} {name : String} {type : Reference} (h : (name, type) ∈ f.declares) :
    type.fullName = name := by
  have henum : ∀ es : List Enum, (name, type) ∈ es.map (fun e => (e.fullName, Reference.enum e)) →
      type.fullName = name := by
    intro es hmem
    obtain ⟨e, -, heq⟩ := List.mem_map.1 hmem
    cases heq
    rfl
  rcases List.mem_append.1 h with hmem | hmem
  · exact henum _ hmem
  · obtain ⟨m, -, hm⟩ := List.mem_flatMap.1 hmem
    rcases List.mem_cons.1 hm with heq | hmem
    · cases heq
      rfl
    · exact henum _ hmem

/-- All that is referred to is found. -/
theorem Filled.exists_type (h : Filled request fs (new request) mid) {name : String} (hname : name ∈ request.typeNames) :
    ∃ type, mid.types.get? name = some type ∧ type.fullName = name ∧ (name, type) ∈ fs.flatMap File.declares := by
  obtain ⟨type, htype⟩ := Option.isSome_iff_exists.1 (h.known.2 (.inr hname))
  have hmem := (h.2.declared _ (Table.mem_of_get? htype)).resolve_left List.not_mem_nil
  obtain ⟨f, -, hf⟩ := List.mem_flatMap.1 hmem
  exact ⟨type, htype, fullName_of_mem_declares hf, hmem⟩

/-- The files of a registry after all references are resolved. -/
theorem Filled.linked_files (h : Filled request fs (new request) mid) :
    mid.linked.files = Table.ofPairs ((fs.map (File.link mid.types)).map fun f => (f.name, f)) := by
  have hput : ∀ table : Table File, (fs.foldl (fun table f => table.put f.name f) table).map
      (fun e => (e.1, e.2.link mid.types)) = (fs.map (File.link mid.types)).foldl (fun table f => Table.put table f.name f)
        (table.map fun e => (e.1, e.2.link mid.types)) := by
    generalize mid.types = types
    clear h
    induction fs with
    | nil => exact fun _ => rfl
    | cons f fs ih =>
      intro table
      rw [List.foldl_cons, ih, Table.map_put, List.map_cons, List.foldl_cons]
      rfl
  rw [Table.ofPairs, List.foldl_map]
  show mid.files.map _ = _
  rw [h.2.files_eq, hput]
  rfl

theorem run_allFiles (r : Registry) : allFiles.run r = match ensure.run r with
    | (.ok _, after) => (.ok after.files, after)
    | (.error e, after) => (.error e, after) := by
  rw [allFiles, run_bind]
  rcases ensure.run r with ⟨result, after⟩
  cases result with
  | ok _ => rfl
  | error e => rfl

/-- What is loaded, where all that is referred to is declared. -/
theorem Filled.loaded (h : Filled request fs (new request) mid) (hadmissible : request.Admissible)
    (hclosed : ∀ s ∈ request.sites, ∀ d ∈ s.message.fields, s.Refers d → bareName d.typeName ∈ request.typeNames) :
    request.Loaded (fs.map (File.link mid.types)) := by
  have hdeclares : (fs.map (File.link mid.types)).flatMap File.declares = fs.flatMap File.declares := by
    rw [List.flatMap_map]
    simp only [File.declares_link]
  rw [Request.Loaded, hdeclares, List.forall₂_map_right_iff]
  apply (forall₂_mem h.1).imp
  intro d f hf
  refine ⟨hf.2.name, ?_⟩
  rw [File.allMessages_link, List.forall₂_map_right_iff]
  apply (forall₂_mem hf.2.messages).imp
  intro s m hm
  have hs : s ∈ request.sites := Request.mem_sites.2 ⟨d, hf.1, hm.1⟩
  apply hadmissible.resolved_link hs h.mapEntries_subset hm.2
  intro d' hd' hrefers
  exact h.exists_type (hclosed s hs d' hd' hrefers)

/-- The two ways in which loading a request can end. -/
theorem outcome (h : request.Admissible) :
    (∃ e after, allFiles.run (new request) = (.error e, after) ∧ e.kind = .schema ∧ request.Defective) ∨
    ∃ fs after, allFiles.run (new request) = (.ok (Table.ofPairs (fs.map fun f => (f.name, f))), after) ∧
      ¬ request.Defective ∧ request.Loaded fs := by
  have hend := contract_ensure (r := new request) rfl (new request) rfl
  rw [run_allFiles]
  revert hend
  rcases ensure.run (new request) with ⟨result, after⟩
  cases result with
  | ok _ =>
    rintro ⟨hnil, fs, mid, hfilled, hnone, rfl⟩
    have hclosed := (hfilled.unresolved?_eq_none h).1 hnone
    refine .inr ⟨fs.map (File.link mid.types), mid.linked, ?_, ?_, hfilled.loaded h hclosed⟩
    · dsimp only
      rw [hfilled.linked_files]
    · intro hdefective
      rcases h.of_defective hdefective with hfaults | ⟨s, hs, d, hd, hrefers, hmissing⟩
      · exact hfaults hnil
      · exact hmissing (hclosed s hs d hd hrefers)
  | error e =>
    rintro ⟨-, hhead | ⟨-, fs, hfilled, p, hfound, rfl⟩⟩
    · exact .inl ⟨e, after, rfl, h.of_fault (List.mem_of_mem_head? hhead)⟩
    · refine .inl ⟨_, after, rfl, rfl, ?_⟩
      -- were all that is referred to declared, nothing would be left to resolve
      by_contra hsound
      have hnone : after.unresolved? = none := by
        apply (hfilled.unresolved?_eq_none h).2
        intro s hs d hd hrefers
        by_contra hmissing
        exact hsound (.reference hs hd hrefers hmissing)
      rw [hfound] at hnone
      cases hnone

private theorem fails_iff_defective (h : request.Admissible) :
    (∃ e after, allFiles.run (new request) = (.error e, after) ∧ e.kind = .schema) ↔ request.Defective := by
  rcases outcome h with ⟨e, after, hrun, hkind, hdefective⟩ | ⟨fs, after, hrun, hsound, -⟩
  · exact iff_of_true ⟨e, after, hrun, hkind⟩ hdefective
  · refine iff_of_false ?_ hsound
    rintro ⟨e, after', herror, -⟩
    rw [hrun] at herror
    cases herror

/-- Where oneofs are not counted from the end and map entries are used only where they are declared, loading fails, and
then with an error of the schema, just for the requests that are defective, in whatever order their files come. All
the files of any other request are loaded, in order and under their names. In each of their messages, at any
depth, every reference is resolved to a type that is declared somewhere in the files under the name that is
referred to, a map is not resolved at all, and a oneof has the fields with its index, in order of declaration. -/
theorem loads_unless_defective {request : Request} (h : request.Admissible) :
    (∀ other : Request, other.files.Perm request.files →
      ((∃ e after, allFiles.run (new other) = (.error e, after) ∧ e.kind = .schema) ↔ request.Defective)) ∧
    (¬ request.Defective → ∃ fs after,
      allFiles.run (new request) = (.ok (Table.ofPairs (fs.map fun f => (f.name, f))), after) ∧ request.Loaded fs) := by
  constructor
  · intro other hperm
    rw [fails_iff_defective (h.of_perm hperm)]
    exact ⟨Request.Defective.of_perm hperm.symm, Request.Defective.of_perm hperm⟩
  · intro hsound
    rcases outcome h with ⟨-, -, -, -, hdefective⟩ | ⟨fs, after, hrun, -, hloaded⟩
    · exact absurd hdefective hsound
    · exact ⟨fs, after, hrun, hloaded⟩

end Registry

end Schema

/-! ### A sample

A letter comes before the office that its stamp and its kind are declared in, and the stamp refers back to it. -/

namespace Sample

open Descriptor

def letterDescriptor : Descriptor.File where
  name := "letter.proto"
  package := "mail"
  dialect := "proto3"
  dependencies := ["office.proto"]
  messages := [
    { name := "Letter"
      fields := [
        { name := "stamp", number := 1, type := .message, typeName := ".mail.Office.Stamp" },
        { name := "labels", number := 2, type := .message, label := .repeated, typeName := ".mail.Letter.LabelsEntry" },
        { name := "grams", number := 3, type := .scalar .int32, oneofIndex := some 0 },
        { name := "kind", number := 4, type := .enum, typeName := ".mail.Kind", oneofIndex := some 0 }]
      nested := [{ name := "LabelsEntry", options := [("map_entry", .bool true)] }]
      oneofs := ["measure"] }]

def officeDescriptor : Descriptor.File where
  name := "office.proto"
  package := "mail"
  messages := [
    { name := "Office"
      nested := [{ name := "Stamp"
                   fields := [{ name := "letter", number := 1, type := .message, typeName := ".mail.Letter" }] }] }]
  enums := [{ name := "Kind", values := [("PLAIN", 0)] }]

def mailRequest : Request := { files := [letterDescriptor, officeDescriptor] }

private theorem admissible_mailRequest : mailRequest.Admissible where
  oneofs := by decide
  entries := by decide

private theorem not_defective_mailRequest : ¬ mailRequest.Defective := by
  have hdependencies : ∀ d ∈ mailRequest.files, ∀ name ∈ d.dependencies, ∃ other ∈ mailRequest.files, other.name = name := by
    decide
  have hdialects : ∀ d ∈ mailRequest.files, d.dialect ∈ ["", "proto2", "proto3", "editions"] := by decide
  have honeofs : ∀ s ∈ mailRequest.sites, ∀ d ∈ s.message.fields, ∀ index ∈ d.oneofIndex,
      index < s.message.oneofs.length := by decide
  have hreferences : ∀ s ∈ mailRequest.sites, ∀ d ∈ s.message.fields, s.Refers d →
      bareName d.typeName ∈ mailRequest.typeNames := by decide
  intro hdefective
  cases hdefective with
  | dependency hd hname hmissing =>
    obtain ⟨other, hother, heq⟩ := hdependencies _ hd _ hname
    exact hmissing other hother heq
  | dialect hd hdialect => exact hdialect (hdialects _ hd)
  | oneof hs hd hindex hrange => exact absurd (honeofs _ hs _ hd _ hindex) (by omega)
  | reference hs hd hrefers hmissing => exact hmissing (hreferences _ hs _ hd hrefers)

theorem loads_unless_defective_mail : mailRequest.Admissible ∧ ¬ mailRequest.Defective ∧
    ∃ fs after, Schema.Registry.allFiles.run (Schema.Registry.new mailRequest) =
        (.ok (Table.ofPairs (fs.map fun f => (f.name, f))), after) ∧ mailRequest.Loaded fs :=
  ⟨admissible_mailRequest, not_defective_mailRequest,
    (Schema.Registry.loads_unless_defective admissible_mailRequest).2 not_defective_mailRequest⟩

end Sample

end MessageCodec
